import OpenHalfLife.Import.Catalog
import OpenHalfLife.Lib.Checked
import OpenHalfLife.Protocol.Session

/-! # The parent's result session

Owns the protocol validator and checks every worker result against the typed
schemas and the cumulative quotas. The first failure is retained: it retires
the catalog, the candidate and the stream, and every later call returns it.
-/

namespace OpenHalfLife.Import

open Protocol Machine

set_option autoImplicit false

inductive ResultSessionError
  | invalidConfiguration
  | invalidState
  | protocol (error : ProtocolError)
  | layout (error : LayoutError)
  | resultValidation
  | unknownSourceToken
  | downstreamFailure
  | incompleteStream
  | generationExhausted
  | sourceInvalidated
  | sourceReadFailure
  | workerFailure
  deriving DecidableEq, Repr

inductive ReadRequestOutcome
  | serviceable (request : ReadRequest)
  | ignoredAfterCancel
  deriving DecidableEq, Repr

structure Candidate where
  generation : CatalogGeneration
  promotable : Bool
  remainingEntries : Nat
  remainingPathBytes : Nat
  remainingTotalBytes : Nat
  previousSourceToken : Option UInt64
  entries : List EntryMetadata

structure Stream where
  remainingBytes : Nat

structure ResultSession where
  protocol : SessionValidator
  limits : ImportLimits
  epoch : WorkerEpoch
  failure : Option ResultSessionError
  enumerationCounter : Nat
  candidate : Option Candidate
  catalog : Option (CatalogGeneration × Catalog)
  stream : Option Stream

class ByteSink (κ : Type) where
  write : List UInt8 → κ → Bool × κ

def entryMetadata (entry : EntryBatchEntry) : EntryMetadata where
  sourceToken := entry.sourceToken
  archivePath := entry.archivePath.bytes
  sizeBytes := entry.sizeBytes

namespace ResultSession

abbrev Method := Machine (Stop ResultSessionError) ResultSession

def new (protocol : SessionValidator) (epoch : WorkerEpoch) (limits : ImportLimits) :
    Except ResultSessionError ResultSession :=
  if protocol.error.isSome ∨ protocol.state ≠ .idle then .error .invalidConfiguration
  else .ok {
    protocol := protocol
    limits := limits
    epoch := epoch
    failure := none
    enumerationCounter := 0
    candidate := none
    catalog := none
    stream := none }

def isTerminal (s : ResultSession) : Bool := s.failure.isSome

def remainingStreamBytes (s : ResultSession) : Nat := (s.stream.map Stream.remainingBytes).getD 0

def catalogView (s : ResultSession) : Option (CatalogGeneration × Catalog) :=
  if s.isTerminal then none else s.catalog

def retireAll (s : ResultSession) : ResultSession :=
  { s with catalog := none, candidate := none, stream := none }

def retire (s : ResultSession) (error : ResultSessionError) : ResultSession :=
  match s.failure with
  | none => { s.retireAll with failure := some error }
  | some _ => s

def fail {α : Type} (error : ResultSessionError) : Method α := .ofFun fun s =>
  (.error (.error ((s.retire error).failure.getD error)), s.retire error)

def guard : Method Unit := .ofFun fun s =>
  match s.failure with
  | none => (.ok (), s)
  | some error => (.error (.error error), s)

def decode {α : Type} : Except ProtocolError α → Method α
  | .ok message => pure message
  | .error error => fail (.protocol error)

def observe (direction : Direction) (frame : FrameView) : Method Unit := .ofFun fun s =>
  match s.protocol.observe direction frame.header with
  | (.ok (), v) => (.ok (), { s with protocol := v })
  | (.error error, v) => (fail (.protocol error)).exec { s with protocol := v }

def beginEnumeration (frame : FrameView) : Method Unit := do
  guard
  decode (decodeEnumeratePayload frame)
  let s ← get
  if s.enumerationCounter + 1 ≥ 2 ^ 64 then fail .generationExhausted
  else
    observe .parentToWorker frame
    modify fun s => { s.retireAll with
      enumerationCounter := s.enumerationCounter + 1
      candidate := some {
        generation := ⟨s.epoch, s.enumerationCounter + 1, Nat.succ_pos _⟩
        promotable := true
        remainingEntries := s.limits.entries
        remainingPathBytes := s.limits.pathBytes
        remainingTotalBytes := s.limits.totalBytes
        previousSourceToken := none
        entries := [] } }

def batchPolicy (limits : ImportLimits) (candidate : Candidate) :
    Except ProtocolError EntryBatchPolicy :=
  EntryBatchPolicy.new candidate.remainingEntries candidate.remainingPathBytes limits.entryBytes
    candidate.remainingTotalBytes candidate.previousSourceToken

def sumOrPanic (values : List Nat) : Method Nat := values.foldlM (addOrPanic 64) 0

def countOf (entries : List EntryMetadata) : Nat := min entries.length (2 ^ 32 - 1)

def spendBatch (prepared : List EntryMetadata) (pathBytes totalBytes : Nat) (lastToken : UInt64)
    (candidate : Candidate) : Method Candidate := do
  let remainingEntries ← subOrPanic candidate.remainingEntries (countOf prepared)
  let remainingPathBytes ← subOrPanic candidate.remainingPathBytes pathBytes
  let remainingTotalBytes ← subOrPanic candidate.remainingTotalBytes totalBytes
  return { candidate with
    entries := if candidate.promotable then candidate.entries ++ prepared else candidate.entries
    remainingEntries := remainingEntries
    remainingPathBytes := remainingPathBytes
    remainingTotalBytes := remainingTotalBytes
    previousSourceToken := some lastToken }

def acceptEntryBatch (frame : FrameView) : Method Unit := do
  guard
  let s ← get
  match s.candidate with
  | none => fail .invalidState
  | some candidate => do
    let policy ← decode (batchPolicy s.limits candidate)
    let decoded ← decode (decodeEntryBatchPayload frame policy maximumEntryBatchEntries)
    let pathBytes ← sumOrPanic (decoded.entries.map fun entry => entry.archivePath.bytes.length)
    let totalBytes ← sumOrPanic (decoded.entries.map fun entry => entry.sizeBytes.toNat)
    let prepared := decoded.entries.map entryMetadata
    let lastToken := (prepared.getLast?.map EntryMetadata.sourceToken).getD 0
    observe .workerToParent frame
    let s ← get
    match s.candidate with
    | none => fail .invalidState
    | some candidate => do
      let next ← spendBatch prepared pathBytes totalBytes lastToken candidate
      modify fun s => { s with candidate := some next }

def promotion (candidate : Candidate) : Method (Option (CatalogGeneration × Catalog)) := do
  let s ← get
  if candidate.promotable then
    let acceptedTotal ← subOrPanic s.limits.totalBytes candidate.remainingTotalBytes
    match planCatalog candidate.entries s.limits with
    | .error error => fail (.layout error)
    | .ok planned =>
      if planned.entries.length ≠ candidate.entries.length ∨ planned.totalBytes ≠ acceptedTotal then
        fail .resultValidation
      else return some (candidate.generation, planned)
  else return none

def completeEnumeration (frame : FrameView) : Method Unit := do
  guard
  let _ ← decode (decodeCompletePayload frame .enumerate)
  let s ← get
  match s.candidate with
  | none => fail .invalidState
  | some candidate => do
    -- Planning takes the candidate's entries.
    modify fun s => { s with candidate := some { candidate with entries := [] } }
    let promoted ← promotion candidate
    observe .workerToParent frame
    modify fun s => { s with catalog := promoted.or s.catalog, candidate := none }

def boundSize (s : ResultSession) (expectedGeneration : CatalogGeneration) (token : UInt64) :
    Option Nat :=
  match s.catalog with
  | some (generation, catalog) =>
    if generation = expectedGeneration then
      (catalog.find token).map fun entry => entry.sizeBytes.toNat
    else none
  | none => none

def beginStreamEntry (frame : FrameView) (expectedGeneration : CatalogGeneration) : Method Unit := do
  guard
  let decoded ← decode (decodeStreamEntryPayload frame)
  let s ← get
  match s.boundSize expectedGeneration decoded.sourceToken with
  | none => fail .unknownSourceToken
  | some sizeBytes => do
    observe .parentToWorker frame
    modify fun s => { s with stream := some ⟨sizeBytes⟩ }

def completeStream (frame : FrameView) : Method Unit := do
  guard
  let _ ← decode (decodeCompletePayload frame .stream)
  let s ← get
  match s.stream with
  | none => fail .invalidState
  | some stream =>
    if stream.remainingBytes ≠ 0 then fail .incompleteStream
    else
      observe .workerToParent frame
      modify fun s => { s with stream := none }

def acceptReadRequest (frame : FrameView) (policy : SourceReadPolicy) (expectedSequence : UInt32) :
    Method ReadRequestOutcome := do
  guard
  let s ← get
  let decoded ← decode (decodeReadRequestPayload frame policy expectedSequence)
  observe .workerToParent frame
  return if s.protocol.state = .cancelling then .ignoredAfterCancel else .serviceable decoded

def acceptReadReply (frame : FrameView) (expectedSequence requestedLength : UInt32) :
    Method Unit := do
  guard
  let decoded ← decode (decodeReadReplyPayload frame expectedSequence requestedLength)
  observe .parentToWorker frame
  match decoded.status with
  | .sourceChanged => fail .sourceInvalidated
  | .sourceReadFailed => fail .sourceReadFailure
  | _ => return ()

def acceptCancel (frame : FrameView) : Method Unit := do
  guard
  decode (decodeCancelPayload frame)
  observe .parentToWorker frame
  modify fun s => { s with
    catalog := none
    candidate := s.candidate.map fun candidate =>
      { candidate with promotable := false, entries := [] } }

def acceptCancelAck (frame : FrameView) : Method Unit := do
  guard
  decode (decodeCancelAckPayload frame)
  observe .workerToParent frame
  modify retireAll

def acceptShutdown (frame : FrameView) : Method Unit := do
  guard
  decode (decodeShutdownPayload frame)
  observe .parentToWorker frame
  modify retireAll

def invalidateSource (s : ResultSession) : ResultSession := s.retire .sourceInvalidated

def workerFailed (s : ResultSession) : ResultSession := s.retire .workerFailure

section Sink

variable {κ : Type}

def onSession {α : Type} (m : Method α) : Machine (Stop ResultSessionError) (ResultSession × κ) α :=
  zoom Prod.fst (fun s h => (s, h.2)) id m

variable [ByteSink κ]

def writeSink (bytes : List UInt8) : Machine (Stop ResultSessionError) (ResultSession × κ) Bool :=
  .ofFun fun h => (.ok (ByteSink.write bytes h.2).1, (h.1, (ByteSink.write bytes h.2).2))

def acceptDataChunk (frame : FrameView) :
    Machine (Stop ResultSessionError) (ResultSession × κ) Unit := do
  onSession guard
  let (s, _) ← get
  match s.stream with
  | none => onSession (fail .invalidState)
  | some stream => do
    let decoded ← onSession (decode (decodeDataChunkPayload frame stream.remainingBytes))
    onSession (observe .workerToParent frame)
    let accepted ← writeSink decoded.data
    if accepted then
      let (s, _) ← get
      match s.stream with
      | none => return ()
      | some stream => do
        let remaining ← subOrPanic stream.remainingBytes decoded.data.length
        onSession (modify fun s => { s with stream := some ⟨remaining⟩ })
    else onSession (fail .downstreamFailure)

end Sink

end ResultSession

end OpenHalfLife.Import
