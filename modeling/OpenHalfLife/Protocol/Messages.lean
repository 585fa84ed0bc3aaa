import OpenHalfLife.Protocol.Payload

/-! # The typed OWP/1 messages

Every decoder checks the header, the declared against the supplied payload
length, the schema and the caller's budget before it returns a message. An
encoder returns the prefix of the destination that it filled.
-/

namespace OpenHalfLife.Protocol

open Machine PayloadReader PayloadWriter

set_option autoImplicit false

def helloPayloadBytes : Nat := 12

def streamEntryPayloadBytes : Nat := 8

def readRequestPayloadBytes : Nat := 16

def readReplyPrefixBytes : Nat := 6

def entryBatchPrefixBytes : Nat := 2

def entryBatchEntryPrefixBytes : Nat := 18

def completePayloadBytes : Nat := 4

def maximumReadBytes : Nat := maximumFramePayloadBytes - 6

/-- `MAXIMUM_DATA_CHUNK_BYTES`, 256 KiB. -/
def maximumDataChunkBytes : Nat := 256 * 1024

def maximumEntryBatchEntries : Nat := 256

def maximumEnumeratedEntries : Nat := 50000

def maximumEntryBatchPathBytes : Nat := 4096

/-- `MAXIMUM_ENUMERATED_PATH_BYTES`, 64 MiB. -/
def maximumEnumeratedPathBytes : Nat := 64 * 1024 * 1024

/-- `MAXIMUM_ENUMERATED_ENTRY_BYTES`, 8 GiB. -/
def maximumEnumeratedEntryBytes : Nat := 8 * 1024 * 1024 * 1024

/-- `MAXIMUM_ENUMERATED_TOTAL_BYTES`, 32 GiB. -/
def maximumEnumeratedTotalBytes : Nat := 32 * 1024 * 1024 * 1024

/-- The little-endian field of `size` bytes at `offset`. -/
def wireField (bytes : List UInt8) (offset size : Nat) : Nat := fromLe ((bytes.drop offset).take size)

namespace FrameHeader

def encode (header : FrameHeader) : Except ProtocolError (List UInt8) := do
  header.validate
  return frameMagic ++ toLe 2 header.majorVersion.toNat ++ toLe 2 header.minorVersion.toNat ++
    toLe 2 header.messageType.toWire.toNat ++ toLe 2 header.flags.toNat ++
    toLe 4 header.payloadLength.toNat ++ toLe 8 header.sessionId.toNat ++
    toLe 8 header.requestId.toNat

end FrameHeader

def decodeFrameHeader (bytes : List UInt8) : Except ProtocolError FrameHeader := do
  if bytes.length ≠ frameHeaderBytes then .error .truncatedHeader
  else if bytes.take 4 ≠ frameMagic then .error .invalidMagic
  else
    let majorVersion := UInt16.ofNat (wireField bytes 4 2)
    let minorVersion := UInt16.ofNat (wireField bytes 6 2)
    if majorVersion ≠ protocolMajorVersion ∨ minorVersion ≠ protocolMinorVersion then
      .error .unsupportedVersion
    else
      let messageType ← MessageType.fromWire (UInt16.ofNat (wireField bytes 8 2))
      let header : FrameHeader := {
        majorVersion := majorVersion
        minorVersion := minorVersion
        messageType := messageType
        flags := UInt16.ofNat (wireField bytes 10 2)
        payloadLength := UInt32.ofNat (wireField bytes 12 4)
        sessionId := UInt64.ofNat (wireField bytes 16 8)
        requestId := UInt64.ofNat (wireField bytes 24 8) }
      header.validate
      return header

structure FrameView where
  header : FrameHeader
  payload : List UInt8
  deriving DecidableEq, Repr

/-- The two requests a `complete` frame may end. -/
inductive OperationPhase
  | enumerate
  | stream
  deriving DecidableEq, Repr

structure SourceReadPolicy where
  sourceSize : UInt64
  maximumReadBytes : UInt32
  sourceSize_ne : sourceSize ≠ 0
  maximumReadBytes_ne : maximumReadBytes ≠ 0
  maximumReadBytes_le : maximumReadBytes.toNat ≤ Protocol.maximumReadBytes

def SourceReadPolicy.new (sourceSize : UInt64) (maximumReadBytes : UInt32) :
    Except ProtocolError SourceReadPolicy :=
  if h : sourceSize = 0 ∨ maximumReadBytes = 0 ∨
      maximumReadBytes.toNat > Protocol.maximumReadBytes then
    .error .invalidBudget
  else
    .ok ⟨sourceSize, maximumReadBytes, fun h' => h (.inl h'), fun h' => h (.inr (.inl h')),
      Nat.le_of_not_lt fun h' => h (.inr (.inr h'))⟩

structure EntryBatchPolicy where
  remainingEntries : Nat
  remainingPathBytes : Nat
  maximumEntryBytes : Nat
  remainingTotalBytes : Nat
  previousSourceToken : Option UInt64
  entries_pos : 0 < remainingEntries
  entries_le : remainingEntries ≤ maximumEnumeratedEntries
  pathBytes_pos : 0 < remainingPathBytes
  pathBytes_le : remainingPathBytes ≤ maximumEnumeratedPathBytes
  entryBytes_pos : 0 < maximumEntryBytes
  entryBytes_le : maximumEntryBytes ≤ maximumEnumeratedEntryBytes
  totalBytes_le : remainingTotalBytes ≤ maximumEnumeratedTotalBytes

def EntryBatchPolicy.new (remainingEntries remainingPathBytes maximumEntryBytes
    remainingTotalBytes : Nat) (previousSourceToken : Option UInt64) :
    Except ProtocolError EntryBatchPolicy :=
  if h : remainingEntries = 0 ∨ remainingEntries > maximumEnumeratedEntries ∨
      remainingPathBytes = 0 ∨ remainingPathBytes > maximumEnumeratedPathBytes ∨
      maximumEntryBytes = 0 ∨ maximumEntryBytes > maximumEnumeratedEntryBytes ∨
      remainingTotalBytes > maximumEnumeratedTotalBytes then
    .error .invalidBudget
  else
    .ok ⟨remainingEntries, remainingPathBytes, maximumEntryBytes, remainingTotalBytes,
      previousSourceToken, by omega, by omega, by omega, by omega, by omega, by omega, by omega⟩

def isPrintable (byte : UInt8) : Bool := 0x20 ≤ byte && byte ≤ 0x7e

/-- An untrusted spelling: the empty placeholder or printable ASCII of bounded length. -/
structure ArchiveSpelling where
  bytes : List UInt8
  printable : bytes.all isPrintable
  length_le : bytes.length ≤ maximumEntryBatchPathBytes
  deriving DecidableEq, Repr

namespace ArchiveSpelling

def empty : ArchiveSpelling := ⟨[], rfl, Nat.zero_le _⟩

def new (bytes : List UInt8) : Except ProtocolError ArchiveSpelling :=
  if h : bytes = [] ∨ bytes.length > maximumEntryBatchPathBytes then .error .noncanonicalValue
  else if hPrintable : bytes.all isPrintable then
    .ok ⟨bytes, hPrintable, Nat.le_of_not_lt fun h' => h (.inr h')⟩
  else .error .noncanonicalValue

theorem new_eq_ok {bytes : List UInt8} {spelling : ArchiveSpelling} (h : new bytes = .ok spelling) :
    spelling.bytes = bytes ∧ bytes ≠ [] := by
  unfold new at h
  split at h
  · cases h
  · rename_i hBytes
    split at h
    · cases h
      exact ⟨rfl, fun hNil => hBytes (.inl hNil)⟩
    · cases h

end ArchiveSpelling

structure Hello where
  sourceSize : UInt64
  maximumReadBytes : UInt32
  deriving DecidableEq, Repr

structure StreamEntry where
  sourceToken : UInt64
  deriving DecidableEq, Repr

structure ReadRequest where
  readSequence : UInt32
  offset : UInt64
  length : UInt32
  deriving DecidableEq, Repr

structure ReadReply where
  readSequence : UInt32
  status : ProtocolStatus
  data : List UInt8
  deriving DecidableEq, Repr

structure EntryBatchEntry where
  sourceToken : UInt64
  sizeBytes : UInt64
  archivePath : ArchiveSpelling
  deriving DecidableEq, Repr

structure EntryBatch where
  entries : List EntryBatchEntry
  deriving DecidableEq, Repr

structure DataChunk where
  data : List UInt8
  deriving DecidableEq, Repr

structure Complete where
  status : ProtocolStatus
  phase : ProtocolPhase
  deriving DecidableEq, Repr

def validateFrame (frame : FrameView) (expected : MessageType) : Except ProtocolError Unit := do
  frame.header.validate
  if frame.payload.length > maximumFramePayloadBytes then .error .payloadTooLarge
  else if frame.payload.length < frame.header.payloadLength.toNat then .error .truncatedPayload
  else if frame.payload.length > frame.header.payloadLength.toNat then .error .trailingBytes
  else if frame.header.messageType ≠ expected then .error .unexpectedMessage
  else .ok ()

def decodeEmpty (frame : FrameView) (expected : MessageType) : Except ProtocolError Unit := do
  validateFrame frame expected
  PayloadReader.decode frame.payload finish

/-! ## hello and the empty kinds -/

def decodeHelloPayload (frame : FrameView) : Except ProtocolError Hello := do
  validateFrame frame .hello
  let message ← PayloadReader.decode frame.payload do
    let sourceSize ← readU64
    let maximumReadBytes ← readU32
    finish
    return ({ sourceSize, maximumReadBytes } : Hello)
  let _ ← (SourceReadPolicy.new message.sourceSize message.maximumReadBytes).mapError
    fun _ => .noncanonicalValue
  return message

def decodeReadyPayload (frame : FrameView) : Except ProtocolError Unit := decodeEmpty frame .ready

def decodeEnumeratePayload (frame : FrameView) : Except ProtocolError Unit :=
  decodeEmpty frame .enumerate

def decodeCancelPayload (frame : FrameView) : Except ProtocolError Unit := decodeEmpty frame .cancel

def decodeCancelAckPayload (frame : FrameView) : Except ProtocolError Unit :=
  decodeEmpty frame .cancelAck

def decodeShutdownPayload (frame : FrameView) : Except ProtocolError Unit :=
  decodeEmpty frame .shutdown

/-! ## stream_entry -/

def decodeStreamEntryPayload (frame : FrameView) : Except ProtocolError StreamEntry := do
  validateFrame frame .streamEntry
  PayloadReader.decode frame.payload do
    let sourceToken ← readU64
    finish
    return ({ sourceToken } : StreamEntry)

/-! ## read_request and read_reply -/

def validateReadRequest (message : ReadRequest) (policy : SourceReadPolicy)
    (expectedSequence : UInt32) : Except ProtocolError Unit :=
  let bound := message.offset.toNat + message.length.toNat
  if expectedSequence = 0 then .error .invalidBudget
  else if message.readSequence = 0 ∨ message.readSequence ≠ expectedSequence ∨
      message.length = 0 ∨ message.length > policy.maximumReadBytes ∨
      message.offset ≥ policy.sourceSize ∨
      ¬ (bound < 2 ^ 64 ∧ bound ≤ policy.sourceSize.toNat) then
    .error .noncanonicalValue
  else .ok ()

def encodeReadRequestPayload (message : ReadRequest) (policy : SourceReadPolicy)
    (expectedSequence : UInt32) (destination : Nat) : Except ProtocolError (List UInt8) := do
  validateReadRequest message policy expectedSequence
  PayloadWriter.encode destination readRequestPayloadBytes do
    writeU32 message.readSequence
    writeU64 message.offset
    writeU32 message.length

def decodeReadRequestPayload (frame : FrameView) (policy : SourceReadPolicy)
    (expectedSequence : UInt32) : Except ProtocolError ReadRequest := do
  validateFrame frame .readRequest
  if expectedSequence = 0 then .error .invalidBudget
  else
    let message ← PayloadReader.decode frame.payload do
      let readSequence ← readU32
      let offset ← readU64
      let length ← readU32
      finish
      return ({ readSequence, offset, length } : ReadRequest)
    validateReadRequest message policy expectedSequence
    return message

def replyStatusAllowed : ProtocolStatus → Bool
  | .ok | .sourceChanged | .sourceReadFailed => true
  | _ => false

def validateReplyContext (expectedSequence requestedLength : UInt32) : Except ProtocolError Unit :=
  if expectedSequence = 0 ∨ requestedLength = 0 ∨ requestedLength.toNat > maximumReadBytes then
    .error .invalidBudget
  else .ok ()

def validateReadReply (message : ReadReply) (expectedSequence requestedLength : UInt32) :
    Except ProtocolError Unit := do
  validateReplyContext expectedSequence requestedLength
  if message.readSequence = 0 ∨ message.readSequence ≠ expectedSequence ∨
      ¬ replyStatusAllowed message.status then
    .error .noncanonicalValue
  else if message.status = .ok then
    if message.data.length = requestedLength.toNat then .ok () else .error .noncanonicalValue
  else if message.data = [] then .ok () else .error .noncanonicalValue

def encodeReadReplyPayload (message : ReadReply) (expectedSequence requestedLength : UInt32)
    (destination : Nat) : Except ProtocolError (List UInt8) :=
  let payloadSize := message.data.length + readReplyPrefixBytes
  if payloadSize > maximumFramePayloadBytes then .error .payloadTooLarge
  else do
    validateReadReply message expectedSequence requestedLength
    PayloadWriter.encode destination payloadSize do
      writeU32 message.readSequence
      writeStatus message.status
      writeBytes message.data

def decodeReadReplyPayload (frame : FrameView) (expectedSequence requestedLength : UInt32) :
    Except ProtocolError ReadReply := do
  validateFrame frame .readReply
  validateReplyContext expectedSequence requestedLength
  let message ← PayloadReader.decode frame.payload do
    let readSequence ← readU32
    let status ← readStatus
    let reader ← get
    let data ← readBytes reader.remaining
    finish
    return ({ readSequence, status, data } : ReadReply)
  validateReadReply message expectedSequence requestedLength
  return message

/-! ## entry_batch -/

structure EntryBatchAccumulator where
  pathBytes : Nat
  totalBytes : Nat
  previousSourceToken : Option UInt64
  deriving DecidableEq, Repr

namespace EntryBatchAccumulator

def start (policy : EntryBatchPolicy) : EntryBatchAccumulator where
  pathBytes := 0
  totalBytes := 0
  previousSourceToken := policy.previousSourceToken

def accept (acc : EntryBatchAccumulator) (sourceToken sizeBytes : UInt64) (path : List UInt8)
    (policy : EntryBatchPolicy) : Except ProtocolError EntryBatchAccumulator := do
  let _ ← ArchiveSpelling.new path
  if policy.remainingPathBytes < acc.pathBytes then .error .noncanonicalValue
  else if policy.remainingTotalBytes < acc.totalBytes then .error .noncanonicalValue
  else if sizeBytes.toNat > policy.maximumEntryBytes ∨
      path.length > policy.remainingPathBytes - acc.pathBytes ∨
      sizeBytes.toNat > policy.remainingTotalBytes - acc.totalBytes ∨
      acc.previousSourceToken.any (sourceToken ≤ ·) then
    .error .noncanonicalValue
  else
    return {
      pathBytes := acc.pathBytes + path.length
      totalBytes := acc.totalBytes + sizeBytes.toNat
      previousSourceToken := some sourceToken }

def acceptAll (policy : EntryBatchPolicy) :
    EntryBatchAccumulator → List EntryBatchEntry → Except ProtocolError EntryBatchAccumulator
  | acc, [] => .ok acc
  | acc, entry :: entries => do
    let acc ← acc.accept entry.sourceToken entry.sizeBytes entry.archivePath.bytes policy
    acceptAll policy acc entries

end EntryBatchAccumulator

/-- `usize` addition; the checked overflow cannot happen below 2^64 bytes of entries. -/
def entryBatchPayloadSize (entries : List EntryBatchEntry) : Except ProtocolError Nat :=
  entries.foldlM (fun size entry =>
    let size := size + (entryBatchEntryPrefixBytes + entry.archivePath.bytes.length)
    if size ≥ 2 ^ 64 then .error .payloadTooLarge else .ok size) entryBatchPrefixBytes

def writeEntry (entry : EntryBatchEntry) : Write Unit := do
  writeU64 entry.sourceToken
  writeU64 entry.sizeBytes
  rejectIf (entry.archivePath.bytes.length ≥ 2 ^ 16) .noncanonicalValue
  writeU16 (UInt16.ofNat entry.archivePath.bytes.length)
  writeBytes entry.archivePath.bytes

def encodeEntryBatchPayload (message : EntryBatch) (policy : EntryBatchPolicy) (destination : Nat) :
    Except ProtocolError (List UInt8) := do
  let entries := message.entries
  if entries = [] ∨ entries.length > maximumEntryBatchEntries ∨
      entries.length > policy.remainingEntries then
    .error .noncanonicalValue
  else
    let _ ← EntryBatchAccumulator.acceptAll policy (.start policy) entries
    let payloadSize ← entryBatchPayloadSize entries
    if payloadSize > maximumFramePayloadBytes then .error .payloadTooLarge
    else
      PayloadWriter.encode destination payloadSize do
        rejectIf (entries.length ≥ 2 ^ 16) .noncanonicalValue
        writeU16 (UInt16.ofNat entries.length)
        entries.forM writeEntry

def readEntryFields : Read (UInt64 × UInt64 × List UInt8) := do
  let sourceToken ← readU64
  let sizeBytes ← readU64
  let pathSize ← readU16
  let path ← readBytes pathSize.toNat
  return (sourceToken, sizeBytes, path)

def validateEntries (policy : EntryBatchPolicy) : Nat → EntryBatchAccumulator → Read Unit
  | 0, _ => return ()
  | count + 1, acc => do
    let (sourceToken, sizeBytes, path) ← readEntryFields
    let acc ← ofExcept id (acc.accept sourceToken sizeBytes path policy)
    validateEntries policy count acc

def validateEntryBatchPayload (payload : List UInt8) (policy : EntryBatchPolicy) :
    Except ProtocolError UInt16 :=
  PayloadReader.decode payload do
    let entryCount ← readU16
    rejectIf (entryCount = 0 ∨ entryCount.toNat > maximumEntryBatchEntries ∨
      entryCount.toNat > policy.remainingEntries) .noncanonicalValue
    validateEntries policy entryCount.toNat (.start policy)
    finish
    return entryCount

def readEntries : Nat → Read (List EntryBatchEntry)
  | 0 => return []
  | count + 1 => do
    let (sourceToken, sizeBytes, path) ← readEntryFields
    let archivePath ← ofExcept id (ArchiveSpelling.new path)
    let entries ← readEntries count
    return { sourceToken, sizeBytes, archivePath } :: entries

/-- `storage` is the length of the caller's entry storage. -/
def decodeEntryBatchPayload (frame : FrameView) (policy : EntryBatchPolicy) (storage : Nat) :
    Except ProtocolError EntryBatch := do
  validateFrame frame .entryBatch
  let entryCount ← validateEntryBatchPayload frame.payload policy
  if storage < entryCount.toNat then .error .outputTooSmall
  else
    PayloadReader.decode frame.payload do
      let _ ← readU16
      let entries ← readEntries entryCount.toNat
      return { entries }

/-! ## data_chunk and complete -/

def validateDataChunk (message : DataChunk) (remainingEntryBytes : Nat) :
    Except ProtocolError Unit :=
  if remainingEntryBytes = 0 then .error .invalidBudget
  else if message.data = [] ∨ message.data.length > maximumDataChunkBytes ∨
      message.data.length > remainingEntryBytes then
    .error .noncanonicalValue
  else .ok ()

def encodeDataChunkPayload (message : DataChunk) (remainingEntryBytes destination : Nat) :
    Except ProtocolError (List UInt8) := do
  validateDataChunk message remainingEntryBytes
  PayloadWriter.encode destination message.data.length do
    writeBytes message.data

def decodeDataChunkPayload (frame : FrameView) (remainingEntryBytes : Nat) :
    Except ProtocolError DataChunk := do
  validateFrame frame .dataChunk
  let message ← PayloadReader.decode frame.payload do
    let reader ← get
    let data ← readBytes reader.remaining
    finish
    return ({ data } : DataChunk)
  validateDataChunk message remainingEntryBytes
  return message

def validateComplete (message : Complete) : Except ProtocolError Unit :=
  if message.status ≠ .ok ∨ message.phase ≠ .complete then .error .noncanonicalValue else .ok ()

def encodeCompletePayload (message : Complete) (_expectedOperationPhase : OperationPhase)
    (destination : Nat) : Except ProtocolError (List UInt8) := do
  validateComplete message
  PayloadWriter.encode destination completePayloadBytes do
    writeStatus message.status
    writePhase message.phase

def decodeCompletePayload (frame : FrameView) (_expectedOperationPhase : OperationPhase) :
    Except ProtocolError Complete := do
  validateFrame frame .complete
  let message ← PayloadReader.decode frame.payload do
    let status ← readStatus
    let phase ← readPhase
    finish
    return ({ status, phase } : Complete)
  validateComplete message
  return message

end OpenHalfLife.Protocol

namespace OpenHalfLife.Protocol

/-! ## What a decoded message promises

One lemma for each decoder: the kind of the frame and the bounds its message
keeps under the caller's budget.
-/

open Machine PayloadReader Result

set_option autoImplicit false

/-- A frame of one kind whose declared length is its payload's. -/
structure FrameView.Canonical (frame : FrameView) (expected : MessageType) : Prop where
  valid : frame.header.Valid
  length_eq : frame.payload.length = frame.header.payloadLength.toNat
  messageType_eq : frame.header.messageType = expected

section Kinds

variable {frame : FrameView} {expected : MessageType}

theorem validateFrame_ok {u : Unit} (h : validateFrame frame expected = .ok u) :
    frame.Canonical expected := by
  simp only [validateFrame, bind_eq_ok, ite_error_eq_ok] at h
  obtain ⟨_, hValid, -, hShort, hLong, hType, -⟩ := h
  exact ⟨hValid, by omega, not_not.mp hType⟩

theorem decodeEmpty_ok {u : Unit} (h : decodeEmpty frame expected = .ok u) :
    frame.Canonical expected := by
  obtain ⟨_, hFrame, -⟩ := bind_eq_ok.mp h
  exact validateFrame_ok hFrame

theorem decodeHelloPayload_ok {message : Hello} (h : decodeHelloPayload frame = .ok message) :
    frame.Canonical .hello := by
  obtain ⟨_, hFrame, -⟩ := bind_eq_ok.mp h
  exact validateFrame_ok hFrame

theorem decodeStreamEntryPayload_ok {message : StreamEntry}
    (h : decodeStreamEntryPayload frame = .ok message) : frame.Canonical .streamEntry := by
  obtain ⟨_, hFrame, -⟩ := bind_eq_ok.mp h
  exact validateFrame_ok hFrame

theorem decodeReadRequestPayload_ok {policy : SourceReadPolicy} {expectedSequence : UInt32}
    {message : ReadRequest} (h : decodeReadRequestPayload frame policy expectedSequence = .ok message) :
    frame.Canonical .readRequest := by
  obtain ⟨_, hFrame, -⟩ := bind_eq_ok.mp h
  exact validateFrame_ok hFrame

theorem decodeReadReplyPayload_ok {expectedSequence requestedLength : UInt32} {message : ReadReply}
    (h : decodeReadReplyPayload frame expectedSequence requestedLength = .ok message) :
    frame.Canonical .readReply := by
  obtain ⟨_, hFrame, -⟩ := bind_eq_ok.mp h
  exact validateFrame_ok hFrame

theorem decodeCompletePayload_ok {phase : OperationPhase} {message : Complete}
    (h : decodeCompletePayload frame phase = .ok message) : frame.Canonical .complete := by
  obtain ⟨_, hFrame, -⟩ := bind_eq_ok.mp h
  exact validateFrame_ok hFrame

end Kinds

theorem decode_eq_ok {α : Type} {payload : List UInt8} {schema : Read α} {a : α} :
    PayloadReader.decode payload schema = .ok a ↔
      ∃ reader, schema.exec (PayloadReader.new payload) = (.ok a, reader) := by
  unfold PayloadReader.decode
  rcases schema.exec (PayloadReader.new payload) with ⟨_ | _, _⟩ <;> simp

theorem take_eq_ok {size : Nat} {bytes : List UInt8} {reader reader' : PayloadReader}
    (h : (take size).exec reader = (.ok bytes, reader')) :
    bytes = (reader.payload.drop reader.position).take size := by
  rw [take, exec_ofFun] at h
  split at h
  · cases h
  split at h
  · cases h
  · cases h
    rfl

theorem decodeDataChunkPayload_ok {frame : FrameView} {remaining : Nat} {message : DataChunk}
    (h : decodeDataChunkPayload frame remaining = .ok message) :
    frame.Canonical .dataChunk ∧ message.data = frame.payload ∧ message.data ≠ [] ∧
      message.data.length ≤ remaining := by
  simp only [decodeDataChunkPayload, bind_eq_ok] at h
  obtain ⟨_, hFrame, decoded, hDecoded, _, hValid, hMessage⟩ := h
  cases hMessage
  refine ⟨validateFrame_ok hFrame, ?_, ?_⟩
  · obtain ⟨reader, hReader⟩ := decode_eq_ok.mp hDecoded
    simp only [exec_bind_eq_ok] at hReader
    obtain ⟨start, _, hStart, data, _, hData, _, _, -, hReturn⟩ := hReader
    cases hStart
    cases hReturn
    simpa [PayloadReader.remaining, PayloadReader.new] using take_eq_ok hData
  · simp only [validateDataChunk, ite_error_eq_ok, not_or] at hValid
    exact ⟨hValid.2.1.1, by omega⟩

theorem readEntries_accepted {policy : EntryBatchPolicy} {count : Nat} {acc : EntryBatchAccumulator}
    {reader reader₁ reader₂ : PayloadReader} {entries : List EntryBatchEntry}
    (hFirst : (validateEntries policy count acc).exec reader = (.ok (), reader₁))
    (hSecond : (readEntries count).exec reader = (.ok entries, reader₂)) :
    entries.length = count ∧ ∃ acc', acc.acceptAll policy entries = .ok acc' := by
  induction count generalizing acc reader entries reader₂ with
  | zero =>
    cases hSecond
    exact ⟨rfl, acc, rfl⟩
  | succ count ih =>
    simp only [validateEntries, readEntries, exec_bind_eq_ok] at hFirst hSecond
    obtain ⟨⟨sourceToken, sizeBytes, path⟩, next, hFields, acc₁, _, hStep, hRest⟩ := hFirst
    obtain ⟨_, _, hFields', archivePath, _, hPath, tail, _, hTail, hReturn⟩ := hSecond
    cases hFields.symm.trans hFields'
    obtain ⟨hAccept, rfl⟩ := exec_ofExcept_eq_ok.mp hStep
    obtain ⟨hSpelling, rfl⟩ := exec_ofExcept_eq_ok.mp hPath
    cases hReturn
    obtain ⟨hLength, acc', hAll⟩ := ih hRest hTail
    refine ⟨by simp [hLength], acc', ?_⟩
    rw [EntryBatchAccumulator.acceptAll, (ArchiveSpelling.new_eq_ok hSpelling).1]
    exact bind_eq_ok.mpr ⟨acc₁, hAccept, hAll⟩

theorem decodeEntryBatchPayload_ok {frame : FrameView} {policy : EntryBatchPolicy} {storage : Nat}
    {message : EntryBatch} (h : decodeEntryBatchPayload frame policy storage = .ok message) :
    frame.Canonical .entryBatch ∧ message.entries ≠ [] ∧
      message.entries.length ≤ maximumEntryBatchEntries ∧
      message.entries.length ≤ policy.remainingEntries ∧
      ∃ acc, (EntryBatchAccumulator.start policy).acceptAll policy message.entries = .ok acc := by
  simp only [decodeEntryBatchPayload, bind_eq_ok, ite_error_eq_ok] at h
  obtain ⟨_, hFrame, count, hCount, -, hEntries⟩ := h
  obtain ⟨_, hFirst⟩ := decode_eq_ok.mp hCount
  obtain ⟨_, hSecond⟩ := decode_eq_ok.mp hEntries
  simp only [exec_bind_eq_ok] at hFirst hSecond
  obtain ⟨entryCount, reader, hRead, _, _, hGuard, _, _, hValidate, _, _, -, hReturn⟩ := hFirst
  obtain ⟨_, _, hRead', entries, _, hReadEntries, hReturn'⟩ := hSecond
  cases hReturn
  cases hReturn'
  cases hRead.symm.trans hRead'
  obtain ⟨hBounds, rfl⟩ := exec_rejectIf_eq_ok.mp hGuard
  obtain ⟨hLength, acc, hAccepted⟩ := readEntries_accepted hValidate hReadEntries
  simp only [not_or] at hBounds
  refine ⟨validateFrame_ok hFrame, ?_, by simp only; omega, by simp only; omega, acc, hAccepted⟩
  rintro rfl
  exact hBounds.1 (UInt16.toNat_inj.mp hLength.symm)

end OpenHalfLife.Protocol
