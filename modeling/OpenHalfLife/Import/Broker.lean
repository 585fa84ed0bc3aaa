import OpenHalfLife.Import.ResultSession

/-! # Parent-serviced reads of the pinned source

The broker answers one `read_request` at a time. A prepared reply carries a
ticket, and the session sees the reply only when its ticket is committed. The
source and its outcomes are a parameter; every call of it is kept in a list.
-/

namespace OpenHalfLife.Import

open Protocol Machine

set_option autoImplicit false

inductive SourceReadError
  | invalidConfiguration
  | invalidState
  | replyPending
  | outputTooSmall
  | requestBudgetExceeded
  | byteBudgetExceeded
  | sequenceExhausted
  | ticketExhausted
  | protocol (error : ProtocolError)
  | internal
  | invalidTicket
  | transportAbandoned
  | sourceChanged
  | sourceReadFailure
  deriving DecidableEq, Repr

def SourceReadError.isTerminal : SourceReadError → Bool
  | .replyPending | .outputTooSmall => false
  | _ => true

inductive MediaSourceError
  | notFound
  | notRegularFile
  | openFailed
  | readFailed
  | unexpectedEof
  | outOfRange
  | changed
  | resourceExhausted
  | unsupported
  deriving DecidableEq, Repr

structure SourceReadLimits where
  readBytes : UInt32
  requests : Nat
  replyPayloadBytes : Nat
  readBytes_ne : readBytes ≠ 0
  readBytes_le : readBytes.toNat ≤ maximumReadBytes
  requests_pos : 0 < requests
  requests_le : requests ≤ maximumProtocolMessages / 2
  replyPayloadBytes_ge : readReplyPrefixBytes + readBytes.toNat ≤ replyPayloadBytes
  replyPayloadBytes_le : replyPayloadBytes ≤ maximumCumulativePayloadBytes

namespace SourceReadLimits

def new (readBytes : UInt32) (requests replyPayloadBytes : Nat) :
    Except SourceReadError SourceReadLimits :=
  if h : readBytes = 0 ∨ readBytes.toNat > maximumReadBytes ∨ requests = 0 ∨
      requests > maximumProtocolMessages / 2 ∨
      replyPayloadBytes < readReplyPrefixBytes + readBytes.toNat ∨
      replyPayloadBytes > maximumCumulativePayloadBytes then
    .error .invalidConfiguration
  else
    .ok ⟨readBytes, requests, replyPayloadBytes, fun h' => h (.inl h'), by omega, by omega, by omega,
      by omega, by omega⟩

def default : SourceReadLimits where
  readBytes := UInt32.ofNat maximumReadBytes
  requests := maximumProtocolMessages / 2
  replyPayloadBytes := maximumCumulativePayloadBytes
  readBytes_ne := by decide
  readBytes_le := by decide
  requests_pos := by decide
  requests_le := Nat.le_refl _
  replyPayloadBytes_ge := by decide
  replyPayloadBytes_le := Nat.le_refl _

end SourceReadLimits

inductive SourceCall
  | verifyUnchanged
  | readExactAt (offset : UInt64) (length : UInt32) (requestsCharged replyPayloadBytesCharged : Nat)
  deriving DecidableEq, Repr

/-- What the pinned source answers after the calls made so far. A read that
succeeds fills the whole destination. -/
structure SourceOps where
  verifyUnchanged : List SourceCall → Except MediaSourceError Unit
  readExactAt : List SourceCall → UInt64 → (length : UInt32) →
    Except MediaSourceError { bytes : List UInt8 // bytes.length = length.toNat }

structure Pending where
  ticket : Nat
  requestId : UInt64
  sequence : UInt32
  requestedLength : UInt32
  status : ProtocolStatus
  deriving DecidableEq, Repr

structure PreparedReply where
  ticket : Nat
  status : ProtocolStatus
  header : FrameHeader
  payload : List UInt8
  deriving DecidableEq, Repr

inductive PrepareOutcome
  | replyReady (prepared : PreparedReply)
  | ignoredAfterCancel
  deriving DecidableEq, Repr

structure SourceReadBroker where
  policy : SourceReadPolicy
  limits : SourceReadLimits
  failure : Option SourceReadError
  committedRequestId : Option UInt64
  nextSequence : UInt32
  sequenceExhausted : Bool
  requestsCharged : Nat
  replyPayloadBytesCharged : Nat
  ticketCounter : Nat
  pending : Option Pending

structure Brokerage where
  broker : SourceReadBroker
  session : ResultSession
  calls : List SourceCall

namespace SourceReadBroker

abbrev Method := Machine (Stop SourceReadError) Brokerage

/-- `sourceSize` is what the pinned source reports, `mediaSize` what its proof says. -/
def withOps (sourceSize mediaSize : UInt64) (session : ResultSession) (limits : SourceReadLimits) :
    Except SourceReadError SourceReadBroker × ResultSession :=
  let usable := sourceSize = mediaSize ∧ ¬ session.isTerminal ∧ session.protocol.state = .idle
  match SourceReadPolicy.new mediaSize limits.readBytes with
  | .ok policy =>
    if usable then
      (.ok {
        policy := policy
        limits := limits
        failure := none
        committedRequestId := none
        nextSequence := 1
        sequenceExhausted := false
        requestsCharged := 0
        replyPayloadBytesCharged := 0
        ticketCounter := 0
        pending := none }, session)
    else (.error .invalidConfiguration, session.workerFailed)
  | .error _ => (.error .invalidConfiguration, session.workerFailed)

def isTerminal (b : SourceReadBroker) : Bool := b.failure.isSome

def replyIsPending (b : SourceReadBroker) : Bool := b.pending.isSome

def retireWith (error : SourceReadError) (w : Brokerage) : Brokerage :=
  match w.broker.failure with
  | some _ => w
  | none => { w with
      broker := { w.broker with failure := some error, pending := none }
      session := if w.session.isTerminal then w.session else w.session.workerFailed }

def fail {α : Type} (error : SourceReadError) : Method α := .ofFun fun w =>
  (.error (.error ((retireWith error w).broker.failure.getD error)), retireWith error w)

def mapSessionError : ResultSessionError → SourceReadError
  | .protocol error => .protocol error
  | _ => .internal

def onSession {α : Type} (m : ResultSession.Method α) : Method (Except ResultSessionError α) :=
  .ofFun fun w => match m.exec w.session with
    | (.ok a, s) => (.ok (.ok a), { w with session := s })
    | (.error (.error e), s) => (.ok (.error e), { w with session := s })
    | (.error .panic, s) => (.error .panic, { w with session := s })
    | (.error .stuck, s) => (.error .stuck, { w with session := s })

def boundaryStatus : MediaSourceError → ProtocolStatus
  | .changed => .sourceChanged
  | _ => .sourceReadFailed

def readStatus : MediaSourceError → ProtocolStatus
  | .changed | .unexpectedEof | .outOfRange => .sourceChanged
  | _ => .sourceReadFailed

section Ops

variable (ops : SourceOps)

def verifyUnchanged : Method (Except MediaSourceError Unit) := .ofFun fun w =>
  (.ok (ops.verifyUnchanged w.calls), { w with calls := w.calls ++ [.verifyUnchanged] })

def readExactAt (offset : UInt64) (length : UInt32) : Method (Except MediaSourceError (List UInt8)) :=
  .ofFun fun w => (.ok ((ops.readExactAt w.calls offset length).map Subtype.val), { w with
    calls := w.calls ++
      [.readExactAt offset length w.broker.requestsCharged w.broker.replyPayloadBytesCharged] })

def serviceStatus : Except MediaSourceError (List UInt8) → Except MediaSourceError Unit → ProtocolStatus
  | .ok _, .ok () => .ok
  | .error error, .ok () => readStatus error
  | _, .error error => boundaryStatus error

/-- Verifies, reads and verifies again; the bytes are the scratch of an `ok` status. -/
def service (offset : UInt64) (length : UInt32) : Method (ProtocolStatus × List UInt8) := do
  match ← verifyUnchanged ops with
  | .error error => return (boundaryStatus error, [])
  | .ok () => do
    let outcome ← readExactAt ops offset length
    let after ← verifyUnchanged ops
    let status := serviceStatus outcome after
    return (status, if status = .ok then outcome.toOption.getD [] else [])

end Ops

def sameRequest (b : SourceReadBroker) (request : FrameView) : Bool :=
  b.committedRequestId = some request.header.requestId

def expectedSequence (b : SourceReadBroker) (request : FrameView) : UInt32 :=
  if b.sameRequest request then b.nextSequence else 1

def replySize (decoded : ReadRequest) : Nat := readReplyPrefixBytes + decoded.length.toNat

/-- The checks of a request that is going to be serviced; they precede its observation. -/
def admitRead (decoded : ReadRequest) (scratch replyStorage : Nat) : Method Unit := do
  let w ← get
  if scratch < decoded.length.toNat ∨ replyStorage < replySize decoded then throw (.error .outputTooSmall)
  else if w.broker.requestsCharged ≥ w.broker.limits.requests then fail .requestBudgetExceeded
  else
    let headroom ← subOrPanic w.broker.limits.replyPayloadBytes w.broker.replyPayloadBytesCharged
    if replySize decoded > headroom then fail .byteBudgetExceeded
    else if w.broker.ticketCounter = 2 ^ 64 - 1 then fail .ticketExhausted
    else return ()

def admitUnless (cancelling : Bool) (decoded : ReadRequest) (scratch replyStorage : Nat) : Method Unit :=
  if cancelling then pure () else admitRead decoded scratch replyStorage

def charge (decoded : ReadRequest) : Method Unit := do
  let w ← get
  let requestsCharged ← addOrPanic 64 w.broker.requestsCharged 1
  let replyPayloadBytesCharged ← addOrPanic 64 w.broker.replyPayloadBytesCharged (replySize decoded)
  modify fun w => { w with broker := { w.broker with
    requestsCharged := requestsCharged
    replyPayloadBytesCharged := replyPayloadBytesCharged } }

def issue (request : FrameView) (decoded : ReadRequest) (sequence : UInt32) (status : ProtocolStatus)
    (encoded : List UInt8) : Method PrepareOutcome := do
  let w ← get
  let ticket ← addOrPanic 64 w.broker.ticketCounter 1
  modify fun w => { w with broker := { w.broker with
    ticketCounter := ticket
    pending := some {
      ticket := ticket
      requestId := request.header.requestId
      sequence := sequence
      requestedLength := decoded.length
      status := status } } }
  return .replyReady {
    ticket := ticket
    status := status
    header := FrameHeader.new .readReply request.header.sessionId request.header.requestId
      (UInt32.ofNat (min encoded.length (2 ^ 32 - 1)))
    payload := encoded }

def answer (ops : SourceOps) (request : FrameView) (decoded : ReadRequest) (sequence : UInt32)
    (scratch replyStorage : Nat) : Method PrepareOutcome := do
  charge decoded
  assertOrPanic (decoded.length.toNat ≤ scratch)
  let (status, data) ← service ops decoded.offset decoded.length
  let message : ReadReply := { readSequence := sequence, status := status, data := data }
  match encodeReadReplyPayload message sequence decoded.length replyStorage with
  | .error error => fail (.protocol error)
  | .ok encoded => issue request decoded sequence status encoded

def settle (ops : SourceOps) (request : FrameView) (decoded : ReadRequest) (sequence : UInt32)
    (scratch replyStorage : Nat) (cancelling : Bool) :
    Except ResultSessionError ReadRequestOutcome → Method PrepareOutcome
  | .error error => fail (mapSessionError error)
  | .ok .ignoredAfterCancel => if cancelling then return .ignoredAfterCancel else fail .internal
  | .ok (.serviceable message) =>
    if cancelling ∨ message ≠ decoded then fail .internal
    else answer ops request decoded sequence scratch replyStorage

def refuse (request : FrameView) (sequence : UInt32) : Method PrepareOutcome := do
  let w ← get
  match ← onSession (ResultSession.acceptReadRequest request w.broker.policy sequence) with
  | .error error => fail (mapSessionError error)
  | .ok _ => fail .internal

def consider (ops : SourceOps) (request : FrameView) (sequence : UInt32) (scratch replyStorage : Nat) :
    Method PrepareOutcome := do
  let w ← get
  let cancelling : Bool := w.session.protocol.state = .cancelling
  match decodeReadRequestPayload request w.broker.policy sequence with
  | .error _ => refuse request sequence
  | .ok decoded => do
    admitUnless cancelling decoded scratch replyStorage
    let accepted ← onSession (ResultSession.acceptReadRequest request w.broker.policy sequence)
    settle ops request decoded sequence scratch replyStorage cancelling accepted

/-- `scratch` and `replyStorage` are the lengths of the caller's buffers. -/
def prepare (ops : SourceOps) (request : FrameView) (scratch replyStorage : Nat) :
    Method PrepareOutcome := do
  let w ← get
  match w.broker.failure with
  | some failure => throw (.error failure)
  | none =>
    if w.broker.pending.isSome then throw (.error .replyPending)
    else if w.broker.sameRequest request ∧ w.broker.sequenceExhausted then fail .sequenceExhausted
    else consider ops request (w.broker.expectedSequence request) scratch replyStorage

def takePending (ticket : Nat) : Method Pending := do
  let w ← get
  match w.broker.failure with
  | some failure => throw (.error failure)
  | none =>
    match w.broker.pending with
    | none => fail .invalidState
    | some pending =>
      if ticket ≠ pending.ticket then fail .invalidTicket
      else
        modify fun w => { w with broker := { w.broker with pending := none } }
        return pending

def commitSequence (pending : Pending) (b : SourceReadBroker) : SourceReadBroker :=
  if pending.sequence.toNat = 2 ^ 32 - 1 then
    { b with committedRequestId := some pending.requestId, sequenceExhausted := true }
  else
    { b with
      committedRequestId := some pending.requestId
      nextSequence := pending.sequence + 1
      sequenceExhausted := false }

/-- The error of a committed reply whose status is not `ok`. -/
def replyError : ProtocolStatus → Except ResultSessionError Unit → SourceReadError
  | .sourceChanged, .error .sourceInvalidated => .sourceChanged
  | .sourceReadFailed, .error .sourceReadFailure => .sourceReadFailure
  | _, .error error => mapSessionError error
  | _, .ok () => .internal

def commitReplySent (prepared : PreparedReply) : Method Unit := do
  let pending ← takePending prepared.ticket
  let frame : FrameView := { header := prepared.header, payload := prepared.payload }
  let accepted ← onSession (ResultSession.acceptReadReply frame pending.sequence pending.requestedLength)
  if pending.status = .ok then
    match accepted with
    | .error error => fail (mapSessionError error)
    | .ok () => modify fun w => { w with broker := commitSequence pending w.broker }
  else fail (replyError pending.status accepted)

def abandonReply (prepared : PreparedReply) : Method Unit := do
  let _ ← takePending prepared.ticket
  fail .transportAbandoned

end SourceReadBroker

end OpenHalfLife.Import
