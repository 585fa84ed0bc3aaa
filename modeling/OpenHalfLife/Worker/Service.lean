import OpenHalfLife.Protocol.Session
import OpenHalfLife.Worker.Capability

/-! # The worker-side session

One lifetime: `hello` in, `ready` out, then bounded requests until `shutdown`
or a fail-closed teardown. An early return keeps every change made before it.
-/

namespace OpenHalfLife.Worker

open Protocol Machine

set_option autoImplicit false

def maximumDispatchSteps : Nat := maximumProtocolMessages

inductive ServiceError
  | invalidConfiguration
  | transportFailure
  | protocolFailure
  | dispatchUnsupported
  | dispatchFailure
  | sourceFailure
  | dispatchBudgetExceeded
  | internalFailure
  deriving DecidableEq, Repr

structure ServiceFailure where
  error : ServiceError
  protocolError : Option ProtocolError
  ioStatus : IoStatus
  dispatchError : Option DispatchError
  sessionId : UInt64
  dispatchSteps : Nat
  deriving DecidableEq, Repr

namespace ServiceFailure

def new (error : ServiceError) : ServiceFailure := ⟨error, none, .ok, none, 0, 0⟩

def transport (status : IoStatus) : ServiceFailure :=
  { new .transportFailure with ioStatus := status }

def protocol (error : ProtocolError) : ServiceFailure :=
  { new .protocolFailure with protocolError := some error }

def dispatch (error : DispatchError) : ServiceFailure :=
  { new (match error with
      | .unsupported => .dispatchUnsupported
      | .failed => .dispatchFailure) with dispatchError := some error }

def rejectedAction (error : ProtocolError) : ServiceFailure :=
  { new .dispatchFailure with protocolError := some error, dispatchError := some .failed }

def internal (error : ProtocolError) : ServiceFailure :=
  { new .internalFailure with protocolError := some error }

end ServiceFailure

structure ServiceSummary where
  sessionId : UInt64
  dispatchSteps : Nat
  deriving DecidableEq, Repr

structure ServiceLimits where
  protocolBudgets : ProtocolBudgets
  maximumDispatchSteps : Nat

namespace ServiceLimits

def default : ServiceLimits := ⟨.default, Worker.maximumDispatchSteps⟩

def isValid (limits : ServiceLimits) : Bool :=
  limits.maximumDispatchSteps ≠ 0 ∧ limits.maximumDispatchSteps ≤ Worker.maximumDispatchSteps ∧
    limits.protocolBudgets.maximumMessages ≥ 2 ∧
    limits.protocolBudgets.maximumPayloadBytes ≥ helloPayloadBytes

end ServiceLimits

structure EnumerationBudget where
  remainingEntries : Nat
  remainingPathBytes : Nat
  remainingTotalBytes : Nat
  previousSourceToken : Option UInt64
  deriving DecidableEq, Repr

namespace EnumerationBudget

def start : EnumerationBudget where
  remainingEntries := maximumEnumeratedEntries
  remainingPathBytes := maximumEnumeratedPathBytes
  remainingTotalBytes := maximumEnumeratedTotalBytes
  previousSourceToken := none

def policy (budget : EnumerationBudget) : Except ProtocolError EntryBatchPolicy :=
  EntryBatchPolicy.new budget.remainingEntries budget.remainingPathBytes
    maximumEnumeratedEntryBytes budget.remainingTotalBytes budget.previousSourceToken

def checkedSub (a b : Nat) : Option Nat := if a < b then none else some (a - b)

/-- The budget left after the entries, or `none` on overspend. -/
def spend (budget : EnumerationBudget) : List EntryBatchEntry → Option EnumerationBudget
  | [] => some budget
  | entry :: entries => do
    let remainingEntries ← checkedSub budget.remainingEntries 1
    let remainingPathBytes ← checkedSub budget.remainingPathBytes entry.archivePath.bytes.length
    let remainingTotalBytes ← checkedSub budget.remainingTotalBytes entry.sizeBytes.toNat
    spend { remainingEntries, remainingPathBytes, remainingTotalBytes,
            previousSourceToken := some entry.sourceToken } entries

end EnumerationBudget

inductive Flow
  | continue_
  | shutdown
  deriving DecidableEq, Repr

structure Channel (τ : Type) where
  transport : τ
  receivePayload : List UInt8

structure Endpoint (τ : Type) extends Channel τ where
  validator : SessionValidator

/-- `sendPayload` is the length of the scratch buffer the encoders fill. -/
structure Service (τ δ : Type) extends Endpoint τ where
  dispatch : δ
  sendPayload : Nat
  limits : ServiceLimits
  sourcePolicy : SourceReadPolicy
  enumeration : EnumerationBudget
  activeOperation : Operation
  sessionId : UInt64
  activeRequestId : UInt64
  remainingStreamBytes : Nat
  dispatchSteps : Nat
  nextReadSequence : UInt32
  pendingReadSequence : UInt32
  pendingReadLength : UInt32
  dispatchActive : Bool
  pendingRead : Bool
  lateReadReply : Bool

section Frames

variable {τ : Type} [Transport τ]

/-- A transport call that must report `Ok`. -/
def transfer {ρ : Type} (call : τ → (IoStatus × ρ) × τ) : Machine ServiceFailure (Channel τ) ρ :=
  .ofFun fun c => match call c.transport with
    | ((.ok, r), t) => (.ok r, { c with transport := t })
    | ((status, _), t) => (.error (.transport status), { c with transport := t })

def readExact (size : Nat) : Machine ServiceFailure (Channel τ) (List UInt8) := do
  let bytes ← transfer (Transport.readExact size)
  return bytes.toList

def writeAll (bytes : List UInt8) : Machine ServiceFailure (Channel τ) Unit :=
  transfer fun t => match Transport.writeAll bytes t with
    | (status, t) => ((status, ()), t)

/-- Reads one frame. A malformed header or another session's is rejected before
its payload is consumed. -/
def receiveFrame (expectedSessionId : UInt64) : Machine ServiceFailure (Channel τ) FrameHeader := do
  let headerBytes ← readExact frameHeaderBytes
  let header ← ofExcept .protocol (decodeFrameHeader headerBytes)
  rejectIf (expectedSessionId ≠ 0 ∧ header.sessionId ≠ expectedSessionId) (.protocol .wrongSessionId)
  let c ← get
  rejectIf (c.receivePayload.length < header.payloadLength.toNat) (.protocol .payloadTooLarge)
  if header.payloadLength ≠ 0 then
    let payload ← readExact header.payloadLength.toNat
    modify fun c => { c with
      receivePayload := payload ++ c.receivePayload.drop header.payloadLength.toNat }
    return header
  else
    return header

def onChannel {α : Type} (m : Machine ServiceFailure (Channel τ) α) :
    Machine ServiceFailure (Endpoint τ) α :=
  zoom Endpoint.toChannel (fun c e => { e with toChannel := c }) id m

def observe (direction : Direction) (header : FrameHeader) :
    Machine ServiceFailure (Endpoint τ) Unit :=
  zoom Endpoint.validator (fun v e => { e with validator := v }) ServiceFailure.protocol
    (.ofFun fun v => v.observe direction header)

def sendFrame (header : FrameHeader) (payload : List UInt8) :
    Machine ServiceFailure (Endpoint τ) Unit := do
  rejectIf (payload.length ≠ header.payloadLength.toNat ∨ payload.length > maximumFramePayloadBytes)
    (.protocol .noncanonicalValue)
  observe .workerToParent header
  let headerBytes ← ofExcept .protocol header.encode
  onChannel (writeAll headerBytes)
  if payload ≠ [] then onChannel (writeAll payload) else return ()

end Frames

inductive Commit
  | readRequest (sequence length : UInt32)
  | entryBatch (next : EnumerationBudget)
  | dataChunk (remainingStreamBytes : Nat)
  | complete

structure FrameContext where
  sessionId : UInt64
  requestId : UInt64
  sendPayload : Nat

structure PreparedFrame where
  header : FrameHeader
  payload : List UInt8
  commit : Commit

section Prepare

abbrev Prepare := Except ServiceFailure PreparedFrame

def PreparedFrame.new (messageType : MessageType) (context : FrameContext) (payload : List UInt8)
    (commit : Commit) : Prepare :=
  if payload.length ≥ 2 ^ 32 then .error (.internal .payloadTooLarge)
  else .ok ⟨.new messageType context.sessionId context.requestId (UInt32.ofNat payload.length),
    payload, commit⟩

def prepareReadRequest (offset : UInt64) (length : UInt32) (pendingRead : Bool)
    (nextReadSequence : UInt32) (sourcePolicy : SourceReadPolicy) (context : FrameContext) :
    Prepare := do
  if pendingRead ∨ nextReadSequence = 0 ∨ length = 0 ∨ length > sourcePolicy.maximumReadBytes ∨
      offset ≥ sourcePolicy.sourceSize ∨
      ¬ length.toNat ≤ sourcePolicy.sourceSize.toNat - offset.toNat then
    .error (.rejectedAction .noncanonicalValue)
  else
    let payload ← (encodeReadRequestPayload ⟨nextReadSequence, offset, length⟩ sourcePolicy
      nextReadSequence context.sendPayload).mapError .rejectedAction
    PreparedFrame.new .readRequest context payload (.readRequest nextReadSequence length)

def prepareEntryBatch (entries : List EntryBatchEntry) (operation : Operation)
    (enumeration : EnumerationBudget) (context : FrameContext) : Prepare := do
  if operation ≠ .enumerate ∨ entries = [] ∨ entries.length > maximumEntryBatchEntries ∨
      entries.length > enumeration.remainingEntries then
    .error (.rejectedAction .noncanonicalValue)
  else if entries.any fun entry => entry.archivePath.bytes.isEmpty then
    .error (.rejectedAction .noncanonicalValue)
  else
    let policy ← enumeration.policy.mapError .rejectedAction
    let payload ← (encodeEntryBatchPayload ⟨entries⟩ policy context.sendPayload).mapError
      .rejectedAction
    match enumeration.spend entries with
    | none => .error (.rejectedAction .noncanonicalValue)
    | some next => PreparedFrame.new .entryBatch context payload (.entryBatch next)

def prepareDataChunk (data : List UInt8) (operation : Operation) (remainingStreamBytes : Nat)
    (context : FrameContext) : Prepare := do
  if operation ≠ .stream ∨ data = [] then .error (.rejectedAction .noncanonicalValue)
  else
    let payload ← (encodeDataChunkPayload ⟨data⟩ remainingStreamBytes context.sendPayload).mapError
      .rejectedAction
    if remainingStreamBytes < payload.length then .error (.rejectedAction .noncanonicalValue)
    else
      PreparedFrame.new .dataChunk context payload
        (.dataChunk (remainingStreamBytes - payload.length))

def completionPhase (remainingStreamBytes : Nat) : Operation → Except ServiceFailure OperationPhase
  | .enumerate => .ok .enumerate
  | .stream =>
    if remainingStreamBytes ≠ 0 then .error (.rejectedAction .noncanonicalValue) else .ok .stream

def prepareComplete (operation : Operation) (remainingStreamBytes : Nat) (context : FrameContext) :
    Prepare := do
  let phase ← completionPhase remainingStreamBytes operation
  let payload ← (encodeCompletePayload ⟨.ok, .complete⟩ phase context.sendPayload).mapError .internal
  PreparedFrame.new .complete context payload .complete

end Prepare

namespace Service

variable {τ δ : Type} [Transport τ] [Dispatcher δ]

abbrev Serve (τ δ : Type) := Machine ServiceFailure (Service τ δ)

def onEndpoint {α : Type} (m : Machine ServiceFailure (Endpoint τ) α) : Serve τ δ α :=
  zoom Service.toEndpoint (fun e s => { s with toEndpoint := e }) id m

def receive : Serve τ δ FrameHeader := do
  let s ← get
  onEndpoint (onChannel (receiveFrame s.sessionId))

def ask {α : Type} (call : δ → Except DispatchError α × δ) : Serve τ δ α :=
  zoom Service.dispatch (fun d s => { s with dispatch := d }) ServiceFailure.dispatch (.ofFun call)

def received (s : Service τ δ) (header : FrameHeader) : FrameView :=
  ⟨header, s.receivePayload.take header.payloadLength.toNat⟩

def requestToken (frame : FrameView) : Operation → Except ProtocolError UInt64
  | .enumerate => do
    decodeEnumeratePayload frame
    return 0
  | .stream => do
    let message ← decodeStreamEntryPayload frame
    return message.sourceToken

def beginOperation (header : FrameHeader) (operation : Operation) : Serve τ δ Flow := do
  let s ← get
  let sourceToken ← ofExcept .protocol (requestToken (s.received header) operation)
  onEndpoint (observe .parentToWorker header)
  let streamSize ← ask (Dispatcher.begin operation sourceToken s.sourcePolicy)
  let sizeIsCanonical : Bool := match operation with
    | .enumerate => streamSize = 0
    | .stream => streamSize.toNat ≤ maximumEnumeratedEntryBytes
  if sizeIsCanonical then
    modify fun s => { s with
      dispatchActive := true
      activeOperation := operation
      activeRequestId := header.requestId
      remainingStreamBytes := streamSize.toNat
      enumeration := .start
      nextReadSequence := 1
      pendingRead := false
      lateReadReply := false }
    return .continue_
  else
    -- The dispatcher owns a request it must abandon; `dispatchActive` is still false.
    modify fun s => { s with dispatch := Dispatcher.cancel s.dispatch }
    throw (.rejectedAction .noncanonicalValue)

def acceptReadReply (header : FrameHeader) (discard : Bool) : Serve τ δ Unit := do
  let s ← get
  rejectIf (s.pendingRead = false) (.protocol .noReadInFlight)
  let reply ← ofExcept .protocol
    (decodeReadReplyPayload (s.received header) s.pendingReadSequence s.pendingReadLength)
  onEndpoint (observe .parentToWorker header)
  modify fun s => { s with
    pendingRead := false
    lateReadReply := false
    nextReadSequence := s.pendingReadSequence + 1
    pendingReadSequence := 0
    pendingReadLength := 0 }
  if discard then return ()
  else if reply.status ≠ .ok then throw (.new .sourceFailure)
  else ask (Dispatcher.acceptReadReply reply)

def handleCancel (header : FrameHeader) : Serve τ δ Flow := do
  let s ← get
  ofExcept .protocol (decodeCancelPayload (s.received header))
  onEndpoint (observe .parentToWorker header)
  if s.validator.state = .idle then
    -- The cancel lost the race with `complete`: consumed, never acknowledged.
    return .continue_
  else
    rejectIf (s.dispatchActive = false) (.new .internalFailure)
    modify fun s => { s with
      dispatch := Dispatcher.cancel s.dispatch
      dispatchActive := false
      lateReadReply := s.pendingRead }
    onEndpoint (sendFrame (.new .cancelAck s.sessionId header.requestId 0) [])
    modify fun s => { s with activeRequestId := 0 }
    return .continue_

def handleLateReadReply (header : FrameHeader) : Serve τ δ Flow := do
  let s ← get
  rejectIf (s.validator.state ≠ .cancelled ∨ s.lateReadReply = false) (.protocol .unexpectedMessage)
  acceptReadReply header true
  return .continue_

def handleShutdown (header : FrameHeader) : Serve τ δ Flow := do
  let s ← get
  ofExcept .protocol (decodeShutdownPayload (s.received header))
  onEndpoint (observe .parentToWorker header)
  modify fun s => { s with
    pendingRead := false
    lateReadReply := false
    transport := Transport.closeIo s.transport }
  return .shutdown

def handleParentFrame (header : FrameHeader) : Serve τ δ Flow :=
  match header.messageType with
  | .enumerate => beginOperation header .enumerate
  | .streamEntry => beginOperation header .stream
  | .cancel => handleCancel header
  | .readReply => handleLateReadReply header
  | .shutdown => handleShutdown header
  | _ => throw (.protocol .unexpectedMessage)

def awaitReadReplyOrCancel : Serve τ δ Unit := do
  let header ← receive
  match header.messageType with
  | .cancel => do
    let _ ← handleCancel header
    return ()
  | .readReply => acceptReadReply header false
  | _ => throw (.protocol .unexpectedMessage)

def prepare (s : Service τ δ) : DispatchAction → Prepare
  | .needRead offset length =>
    prepareReadRequest offset length s.pendingRead s.nextReadSequence s.sourcePolicy
      ⟨s.sessionId, s.activeRequestId, s.sendPayload⟩
  | .entryBatch entries =>
    prepareEntryBatch entries s.activeOperation s.enumeration
      ⟨s.sessionId, s.activeRequestId, s.sendPayload⟩
  | .dataChunk data =>
    prepareDataChunk data s.activeOperation s.remainingStreamBytes
      ⟨s.sessionId, s.activeRequestId, s.sendPayload⟩
  | .complete =>
    prepareComplete s.activeOperation s.remainingStreamBytes
      ⟨s.sessionId, s.activeRequestId, s.sendPayload⟩

def recordRead (s : Service τ δ) : Commit → Service τ δ
  | .readRequest sequence length =>
    { s with pendingRead := true, pendingReadSequence := sequence, pendingReadLength := length }
  | _ => s

def commitFrame : Commit → Serve τ δ Unit
  | .readRequest _ _ => awaitReadReplyOrCancel
  | .entryBatch next => modify fun s => { s with enumeration := next }
  | .dataChunk remaining => modify fun s => { s with remainingStreamBytes := remaining }
  | .complete => modify fun s => { s with
      dispatch := Dispatcher.end_ s.dispatch
      dispatchActive := false
      activeRequestId := 0 }

def probeInput : Serve τ δ InputStatus := .ofFun fun s =>
  match Transport.probeInput s.transport with
  | (status, t) => (.ok status, { s with transport := t })

def dispatchStep : Serve τ δ Unit := do
  let s ← get
  rejectIf (s.dispatchSteps ≥ s.limits.maximumDispatchSteps) (.new .dispatchBudgetExceeded)
  modify fun s => { s with dispatchSteps := s.dispatchSteps + 1 }
  let action ← ask Dispatcher.step
  let s ← get
  let prepared ← ofExcept id (s.prepare action)
  modify fun s => s.recordRead prepared.commit
  onEndpoint (sendFrame prepared.header prepared.payload)
  commitFrame prepared.commit

def runActiveOperation : Serve τ δ Unit := do
  match ← probeInput with
  | .peerClosed => throw (.transport .peerClosed)
  | .failed => throw (.transport .failed)
  | .available => do
    let header ← receive
    rejectIf (header.messageType ≠ .cancel) (.protocol .unexpectedMessage)
    let _ ← handleCancel header
    return ()
  | .unavailable => dispatchStep

def turn : Serve τ δ (Option Unit) := do
  let s ← get
  match s.validator.state with
  | .enumerating | .streaming => do
    runActiveOperation
    return none
  | _ => do
    let header ← receive
    let flow ← handleParentFrame header
    return if flow = .shutdown then some () else none

def run (fuel : Nat) (s : Service τ δ) : Option (Except ServiceFailure Unit × Service τ δ) :=
  repeatFor turn fuel s

end Service

section Lifetime

variable {τ δ : Type} [Transport τ] [Dispatcher δ]

def tagSession (sessionId : SessionId) (failure : ServiceFailure) : ServiceFailure :=
  { failure with sessionId := sessionId.value }

/-- Consumes `hello` and emits `ready`. -/
def handshake (limits : ServiceLimits) :
    Machine ServiceFailure (Channel τ) (SessionValidator × SessionId × SourceReadPolicy) := do
  let header ← receiveFrame 0
  let c ← get
  let hello ← ofExcept .protocol
    (decodeHelloPayload ⟨header, c.receivePayload.take header.payloadLength.toNat⟩)
  match SessionId.new header.sessionId with
  | none => throw (.protocol .invalidSessionId)
  | some sessionId => do
    let sourcePolicy ← ofExcept .protocol
      (SourceReadPolicy.new hello.sourceSize hello.maximumReadBytes)
    let established : Machine ServiceFailure (Endpoint τ) SessionValidator := do
      observe .parentToWorker header
      sendFrame (.new .ready sessionId.value 0 0) []
      let e ← get
      return e.validator
    let validator ← zoom (fun c => ⟨c, .new sessionId limits.protocolBudgets⟩)
      (fun e _ => e.toChannel) (tagSession sessionId) established
    return (validator, sessionId, sourcePolicy)

def Service.start (channel : Channel τ) (dispatch : δ) (sendPayload : Nat) (limits : ServiceLimits)
    (validator : SessionValidator) (sessionId : SessionId) (sourcePolicy : SourceReadPolicy) :
    Service τ δ where
  toChannel := channel
  validator := validator
  dispatch := dispatch
  sendPayload := sendPayload
  limits := limits
  sourcePolicy := sourcePolicy
  enumeration := .start
  activeOperation := .enumerate
  sessionId := sessionId.value
  activeRequestId := 0
  remainingStreamBytes := 0
  dispatchSteps := 0
  nextReadSequence := 1
  pendingReadSequence := 0
  pendingReadLength := 0
  dispatchActive := false
  pendingRead := false
  lateReadReply := false

/-- The failure path of a started service: an active request is cancelled, and
the transport is aborted. -/
def Service.teardown (s : Service τ δ) : Service τ δ :=
  let s := if s.dispatchActive then
    { s with dispatch := Dispatcher.cancel s.dispatch, dispatchActive := false }
  else s
  { s with transport := Transport.abortIo s.transport }

/-- The result of a lifetime with the capabilities as it left them; `none` when
`fuel` turns were not enough. -/
def runParserWorkerService (fuel : Nat) (transport : τ) (dispatch : δ)
    (receivePayload : List UInt8) (sendPayload : Nat) (limits : ServiceLimits) :
    Option (Except ServiceFailure ServiceSummary × τ × δ) :=
  if receivePayload.length < maximumFramePayloadBytes ∨ sendPayload < maximumFramePayloadBytes ∨
      limits.isValid = false then
    some (.error (.new .invalidConfiguration), Transport.abortIo transport, dispatch)
  else match (handshake limits).exec ⟨transport, receivePayload⟩ with
    | (.error failure, c) => some (.error failure, Transport.abortIo c.transport, dispatch)
    | (.ok (validator, sessionId, sourcePolicy), c) =>
      match (Service.start c dispatch sendPayload limits validator sessionId sourcePolicy).run fuel with
      | none => none
      | some (.ok (), s) => some (.ok ⟨s.sessionId, s.dispatchSteps⟩, s.transport, s.dispatch)
      | some (.error failure, s) =>
        some (.error { failure with sessionId := s.sessionId, dispatchSteps := s.dispatchSteps },
          s.teardown.transport, s.teardown.dispatch)

end Lifetime

end OpenHalfLife.Worker
