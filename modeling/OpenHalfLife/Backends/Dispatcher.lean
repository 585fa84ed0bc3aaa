import OpenHalfLife.Backends.Window
import OpenHalfLife.Backends.WiseWalk
import OpenHalfLife.Worker.Capability

/-! # The dispatcher of the shipped worker

Every read it asks for comes from a window miss or from a container that is
being buffered. The container decoders and the spelling rules are parameters:
they see bytes that are already in memory.
-/

namespace OpenHalfLife.Backends

open Machine Wise Protocol Worker

set_option autoImplicit false

def chunkBytes : Nat := 64 * 1024

def batchEntries : Nat := 64

def detectBytes : Nat := 4

inductive ContainerKind
  | wiseOverlay
  | microsoftCabinet
  | installShieldZ
  deriving DecidableEq, Repr

structure BufferedDecoder where
  entries : List UInt8 → Option (List BufferedEntry)
  extract : List UInt8 → UInt64 → Option (List UInt8)

structure Decoders where
  wise : WiseFormat
  cabinet : BufferedDecoder
  zArchive : BufferedDecoder
  /-- The keys held so far and a recorded name to the offered spelling. -/
  spell : List (List UInt8) → List UInt8 → Option (List UInt8 × List (List UInt8))
  unnamedSpelling : Nat → List UInt8

inductive Plan
  | wiseStream (compressedOffset : Nat) (declaredCrc32 : UInt32) (sizeBytes : UInt64)
  | buffered (token sizeBytes : UInt64)
  deriving DecidableEq, Repr

inductive Container (σ : Type)
  | wise (backend : WiseBackend σ)
  | cabinet (buffer : ContainerBuffer)
  | zArchive (buffer : ContainerBuffer)

inductive EnumerateStage
  | detect
  | load
  | walk
  | emit (index : Nat)
  | done
  deriving DecidableEq, Repr

structure StreamOp where
  plan : Plan
  emitted : Nat
  buffered : List UInt8
  started : Bool
  verified : Bool
  deriving DecidableEq, Repr

inductive Active
  | none
  | enumerate (stage : EnumerateStage)
  | stream (operation : StreamOp)
  deriving DecidableEq, Repr

inductive Emission
  | needRead (offset length : Nat)
  | batch (start stop : Nat)
  | chunk (data : List UInt8)
  | complete
  deriving DecidableEq, Repr

structure BackendLimits where
  wise : Limits
  maximumEntries : Nat

/-- `arenaFree` is what the spelling arena has left. -/
structure ContainerDispatcher (σ : Type) where
  limits : BackendLimits
  arenaFree : Nat
  window : Option WindowSource
  container : Option (Container σ)
  kind : Option ContainerKind
  entries : List EntryBatchEntry
  plans : List Plan
  active : Active
  reader : Option (StreamReader σ)
  armed : Option PendingRead
  unsupported : Bool

namespace ContainerDispatcher

variable {σ α : Type}

def new (arenaFree : Nat) (limits : BackendLimits) : ContainerDispatcher σ where
  limits
  arenaFree
  window := none
  container := none
  kind := none
  entries := []
  plans := []
  active := .none
  reader := none
  armed := none
  unsupported := false

abbrev Method (σ α : Type) := Machine (Stop DispatchError) (ContainerDispatcher σ) α

def mapStop : Stop WiseError → Stop DispatchError
  | .error _ => .error .failed
  | .panic => .panic
  | .stuck => .stuck

def orFail : Option α → Method σ α
  | some a => pure a
  | none => throw (.error .failed)

def setActive (active : Active) : Method σ Unit := modify fun d => { d with active }

def refuse : Method σ α := do
  modify fun d => { d with unsupported := true }
  throw (.error .unsupported)

def arm (pending : PendingRead) : Method σ Emission := do
  modify fun d => { d with armed := some pending }
  return .needRead pending.offset pending.length

def armWindow : Method σ Emission := do
  let window ← orFail (← get).window
  modify fun d => { d with window := some window.takePending.2 }
  let pending ← orFail window.takePending.1
  arm pending

def onWindow (m : Machine (Stop WiseError) WindowSource α) : Method σ (Except (Stop WiseError) α) := do
  let window ← orFail (← get).window
  let result := m.exec window
  modify fun d => { d with window := some result.2 }
  return result.1

def kindOf (head : List UInt8) : Option ContainerKind :=
  if head = [0x4D, 0x53, 0x43, 0x46] then some .microsoftCabinet
  else if head = [0x13, 0x5D, 0x65, 0x8C] then some .installShieldZ
  else if head.take 2 = [0x4D, 0x5A] then some .wiseOverlay
  else none

def newBuffer (size : Nat) : Method σ ContainerBuffer :=
  ofExcept (fun _ => .error .unsupported) (ContainerBuffer.new size)

def newContainer (inflater : Transducer σ) (size : Nat) : ContainerKind → Method σ (Container σ)
  | .wiseOverlay => do return .wise (.new inflater (← get).limits.wise)
  | .microsoftCabinet => do return .cabinet (← newBuffer size)
  | .installShieldZ => do return .zArchive (← newBuffer size)

def firstStage : ContainerKind → EnumerateStage
  | .wiseOverlay => .walk
  | _ => .load

def recognise (inflater : Transducer σ) (size : Nat) (head : List UInt8) : Method σ Unit := do
  match kindOf head with
  | none => refuse
  | some kind =>
    modify fun d => { d with kind := some kind }
    let container ← newContainer inflater size kind
    modify fun d => { d with container := some container, active := .enumerate (firstStage kind) }

def detect (inflater : Transducer σ) : Method σ (Option Emission) := do
  let window ← orFail (← get).window
  match ← onWindow (WindowSource.read 0 detectBytes) with
  | .ok head =>
    if head.length = detectBytes then
      recognise inflater window.sourceSize head
      return none
    else
      refuse
  | .error (.error _) => return some (← armWindow)
  | .error stop => throw (mapStop stop)

def offer (token sizeBytes : UInt64) (spelling : List UInt8) (plan : Plan) : Method σ Unit := do
  rejectIf ((← get).arenaFree < spelling.length) (.error .failed)
  modify fun d => { d with arenaFree := d.arenaFree - spelling.length }
  let archivePath ← ofExcept (fun _ => .error .failed) (ArchiveSpelling.new spelling)
  modify fun d =>
    { d with entries := d.entries ++ [⟨token, sizeBytes, archivePath⟩], plans := d.plans ++ [plan] }

def offerBuffered (decoders : Decoders) :
    List BufferedEntry → List (List UInt8) → Method σ Unit
  | [], _ => return ()
  | entry :: rest, keys => do
    let d ← get
    if d.entries.length ≥ d.limits.maximumEntries then
      return ()
    else
      match decoders.spell keys entry.name with
      | none => offerBuffered decoders rest keys
      | some (spelling, keys) =>
        offer entry.token entry.sizeBytes spelling (.buffered entry.token entry.sizeBytes)
        offerBuffered decoders rest keys

def loadBuffer (decoders : Decoders) (decoder : BufferedDecoder) (maximumRead : Nat)
    (buffer : ContainerBuffer) : Method σ (Option Emission) := do
  if buffer.isComplete = false then
    return some (← arm (buffer.nextRead maximumRead))
  else
    let entries ← orFail (decoder.entries buffer.bytes)
    offerBuffered decoders entries []
    setActive (.enumerate (.emit 0))
    return none

def load (decoders : Decoders) : Method σ (Option Emission) := do
  let window ← orFail (← get).window
  let maximumRead := WindowSource.clampU32 window.capacity
  match (← get).container with
  | some (.cabinet buffer) => loadBuffer decoders decoders.cabinet maximumRead buffer
  | some (.zArchive buffer) => loadBuffer decoders decoders.zArchive maximumRead buffer
  | _ => throw (.error .failed)

def unnamedTokenBase : Nat := 2 ^ 32

/-- The walked entries that have an acceptable spelling, at most `maximum` of them. -/
def wiseOffers (decoders : Decoders) (mapping : WiseMapping) (maximum : Nat) :
    List WiseEntry → List (List UInt8) → List (WiseEntry × List UInt8) → List (WiseEntry × List UInt8)
  | [], _, offers => offers
  | entry :: rest, keys, offers =>
    if offers.length ≥ maximum then
      offers
    else
      let name := match mapping.recordedName entry.token with
        | some bytes => bytes
        | none => decoders.unnamedSpelling (WindowSource.clampU32 (entry.token.toNat - unnamedTokenBase))
      match decoders.spell keys name with
      | none => wiseOffers decoders mapping maximum rest keys offers
      | some (spelling, keys) =>
        wiseOffers decoders mapping maximum rest keys (offers ++ [(entry, spelling)])

def offerWise (decoders : Decoders) : Method σ Unit := do
  match (← get).container with
  | some (.wise backend) =>
    let maximum := (← get).limits.maximumEntries
    let offers := match backend.mapping with
      | some mapping => wiseOffers decoders mapping maximum mapping.entries [] []
      | none => []
    offers.forM fun (entry, spelling) =>
      offer entry.token entry.sizeBytes spelling
        (.wiseStream entry.compressedOffset entry.declaredCrc32 entry.sizeBytes)
  | _ =>
    modify fun d => { d with container := none }
    throw (.error .failed)

def concludeWalk (decoders : Decoders) : Except (Stop WiseError) Advance → Method σ (Option Emission)
  | .ok .working => return none
  | .ok .needRead => do return some (← armWindow)
  | .ok .ready => do
    offerWise decoders
    setActive (.enumerate (.emit 0))
    return none
  | .error stop => throw (mapStop stop)

def walk (inflater : Transducer σ) (decoders : Decoders) : Method σ (Option Emission) := do
  let d ← get
  modify fun d => { d with container := none }
  match d.container with
  | some (.wise backend) =>
    let window ← orFail d.window
    let result := (WiseBackend.advance inflater decoders.wise).exec (backend, window)
    modify fun d => { d with container := some (.wise result.2.1), window := some result.2.2 }
    concludeWalk decoders result.1
  | _ => throw (.error .failed)

def bufferedStep (sizeBytes : UInt64) : Machine (Stop DispatchError) StreamOp Emission := do
  let operation ← get
  if operation.emitted ≥ sizeBytes.toNat then
    return .complete
  else
    let stop := min (operation.emitted + chunkBytes) operation.buffered.length
    rejectIf (operation.emitted ≥ stop) (.error .failed)
    modify fun operation => { operation with emitted := stop }
    return .chunk ((operation.buffered.drop operation.emitted).take (stop - operation.emitted))

def verifies (declaredCrc32 : UInt32) (sizeBytes : UInt64) (emitted : Nat) (metrics : StreamMetrics) :
    Bool :=
  metrics.checksum = .match_ ∧ (declaredCrc32 = 0 ∨ declaredCrc32 = metrics.computedCrc32) ∧
    metrics.inflatedLen = sizeBytes.toNat ∧ emitted = sizeBytes.toNat

abbrev Streaming (σ : Type) := (StreamReader σ × WindowSource) × StreamOp

def onSource (m : Machine (Stop WiseError) (StreamReader σ × WindowSource) α) :
    Machine (Stop DispatchError) (Streaming σ) (Except (Stop WiseError) α) :=
  attempt (.zoom Prod.fst (fun r s => (r, s.2)) id m)

def onOperation (m : Machine (Stop DispatchError) StreamOp α) :
    Machine (Stop DispatchError) (Streaming σ) α :=
  .zoom Prod.snd (fun operation s => (s.1, operation)) id m

def concludeStream (declaredCrc32 : UInt32) (sizeBytes : UInt64) :
    Except (Stop WiseError) StreamMetrics →
      Machine (Stop DispatchError) (Streaming σ) (Option (Option Emission))
  | .ok metrics => do
    rejectIf (verifies declaredCrc32 sizeBytes (← get).2.emitted metrics = false) (.error .failed)
    onOperation (modify fun operation => { operation with verified := true })
    return some (some .complete)
  | .error stop =>
    if stop = .error .sourceFailed then return some none else throw (mapStop stop)

def concludeChunk (sizeBytes : UInt64) : Except (Stop WiseError) (List UInt8) →
    Machine (Stop DispatchError) (Streaming σ) (Option (Option Emission))
  | .ok [] => do
    rejectIf ((← get).1.1.finished = false) (.error .failed)
    return none
  | .ok written => do
    onOperation (modify fun operation =>
      { operation with emitted := min (operation.emitted + written.length) (2 ^ 64 - 1) })
    rejectIf ((← get).2.emitted > sizeBytes.toNat) (.error .failed)
    return some (some (.chunk written))
  | .error stop =>
    if stop = .error .sourceFailed then return some none else throw (mapStop stop)

/-- One turn of the loop of `wiseStep`; `some none` breaks it at a miss. -/
def wiseTurn (inflater : Transducer σ) (declaredCrc32 : UInt32) (sizeBytes : UInt64) :
    Machine (Stop DispatchError) (Streaming σ) (Option (Option Emission)) := do
  let ((reader, _), _) ← get
  if reader.finished = true then
    concludeStream declaredCrc32 sizeBytes (← onSource StreamReader.finish)
  else
    concludeChunk sizeBytes (← onSource (StreamReader.read inflater chunkBytes))

def startStream (inflater : Transducer σ) (compressedOffset : Nat) (operation : StreamOp) :
    Method σ (StreamReader σ × StreamOp) := do
  let d ← get
  let reader := match d.reader with
    | some reader => reader
    | none => .new inflater compressedOffset d.limits.wise
  if operation.started = true then
    return (reader, operation)
  else
    return (reader.restart inflater compressedOffset, { operation with started := true })

def wiseStep (inflater : Transducer σ) (fuel : Nat) (compressedOffset : Nat) (declaredCrc32 : UInt32)
    (sizeBytes : UInt64) (operation : StreamOp) : Method σ Emission := do
  if operation.verified = true then
    setActive (.stream operation)
    return .complete
  else
    let (reader, operation) ← startStream inflater compressedOffset operation
    modify fun d => { d with reader := some reader, active := .stream operation }
    let window ← orFail (← get).window
    let result := (loop (wiseTurn inflater declaredCrc32 sizeBytes) fuel).exec ((reader, window), operation)
    modify fun d =>
      { d with reader := some result.2.1.1, window := some result.2.1.2, active := .stream result.2.2 }
    match result.1 with
    | .ok (some emission) => return emission
    | .ok none => armWindow
    | .error stop => throw stop

/-- One step of an active stream request; the operation is put back whatever happens. -/
def streamStep (inflater : Transducer σ) (fuel : Nat) (operation : StreamOp) : Method σ Emission := do
  match operation.plan with
  | .buffered _ sizeBytes =>
    let result := (bufferedStep sizeBytes).exec operation
    setActive (.stream result.2)
    ofExcept id result.1
  | .wiseStream compressedOffset declaredCrc32 sizeBytes =>
    wiseStep inflater fuel compressedOffset declaredCrc32 sizeBytes operation

def emitBatch (start : Nat) : Method σ Emission := do
  let stop := min (start + batchEntries) (← get).entries.length
  if start ≥ stop then
    setActive (.enumerate .done)
    return .complete
  else
    setActive (.enumerate (.emit stop))
    return .batch start stop

def advanceTurn (inflater : Transducer σ) (decoders : Decoders) (fuel : Nat) :
    Method σ (Option Emission) := do
  match (← get).active with
  | .stream operation => return some (← streamStep inflater fuel operation)
  | .enumerate .detect => detect inflater
  | .enumerate .load => load decoders
  | .enumerate .walk => walk inflater decoders
  | .enumerate (.emit start) => return some (← emitBatch start)
  | .enumerate .done => throw (.error .failed)
  | .none => throw (.error .failed)

def advance (inflater : Transducer σ) (decoders : Decoders) (fuel : Nat) : Method σ Emission :=
  loop (advanceTurn inflater decoders fuel) fuel

def extractEntry (decoders : Decoders) (token : UInt64) : Option (Container σ) → Option (List UInt8)
  | some (.cabinet buffer) => decoders.cabinet.extract buffer.bytes token
  | some (.zArchive buffer) => decoders.zArchive.extract buffer.bytes token
  | _ => none

def beginPlan (decoders : Decoders) : Plan → Method σ (UInt64 × List UInt8)
  | .wiseStream _ _ sizeBytes => return (sizeBytes, [])
  | .buffered token sizeBytes => do
    let bytes ← orFail (extractEntry decoders token (← get).container)
    rejectIf (bytes.length ≠ sizeBytes.toNat) (.error .failed)
    return (sizeBytes, bytes)

def beginStream (decoders : Decoders) (token : UInt64) : Method σ UInt64 := do
  let d ← get
  let index ← orFail (d.entries.findIdx? fun entry => entry.sourceToken == token)
  let plan ← orFail d.plans[index]?
  let (sizeBytes, buffered) ← beginPlan decoders plan
  setActive (.stream ⟨plan, 0, buffered, false, false⟩)
  return sizeBytes

def enumerateStage (d : ContainerDispatcher σ) : EnumerateStage :=
  if d.entries = [] then
    match d.kind with
    | none => .detect
    | some kind => firstStage kind
  else
    .emit 0

def openWindow (policy : SourceReadPolicy) : Option WindowSource → WindowSource
  | some window => window
  | none => .new policy.sourceSize.toNat (min policy.maximumReadBytes.toNat defaultWindowBytes)

def begin (decoders : Decoders) (operation : Operation) (sourceToken : UInt64)
    (sourcePolicy : SourceReadPolicy) : Method σ UInt64 := do
  rejectIf ((← get).unsupported = true) (.error .unsupported)
  modify fun d => { d with window := some (openWindow sourcePolicy d.window), armed := none }
  match operation with
  | .enumerate =>
    modify fun d => { d with active := .enumerate d.enumerateStage }
    return 0
  | .stream => beginStream decoders sourceToken

def action (entries : List EntryBatchEntry) : Emission → DispatchAction
  | .needRead offset length => .needRead (.ofNat offset) (.ofNat length)
  | .batch start stop => .entryBatch ((entries.drop start).take (stop - start))
  | .chunk data => .dataChunk data
  | .complete => .complete

def step (inflater : Transducer σ) (decoders : Decoders) (fuel : Nat) : Method σ DispatchAction := do
  let emission ← advance inflater decoders fuel
  return action (← get).entries emission

def appendReply (data : List UInt8) : Method σ Unit := do
  match (← get).container with
  | some (.cabinet buffer) =>
    modify fun d => { d with container := some (.cabinet (buffer.append data).2) }
    rejectIf ((buffer.append data).1 = false) (.error .failed)
  | some (.zArchive buffer) =>
    modify fun d => { d with container := some (.zArchive (buffer.append data).2) }
    rejectIf ((buffer.append data).1 = false) (.error .failed)
  | _ => throw (.error .failed)

def deliverReply (offset : Nat) (data : List UInt8) : Method σ Unit := do
  let window ← orFail (← get).window
  modify fun d => { d with window := some (window.deliver offset data).2 }
  rejectIf ((window.deliver offset data).1 = false) (.error .failed)

def acceptReadReply (reply : ReadReply) : Method σ Unit := do
  let d ← get
  modify fun d => { d with armed := none }
  let armed ← orFail d.armed
  rejectIf (reply.data.length ≠ armed.length) (.error .failed)
  if d.active = .enumerate .load then
    appendReply reply.data
  else
    deliverReply armed.offset reply.data

def cancel (d : ContainerDispatcher σ) : ContainerDispatcher σ :=
  { d with
    active := .none
    armed := none
    window := d.window.map fun window => window.takePending.2 }

def end_ (d : ContainerDispatcher σ) : ContainerDispatcher σ :=
  { d with active := .none, armed := none }

end ContainerDispatcher

end OpenHalfLife.Backends
