import OpenHalfLife.Backends.Window
import OpenHalfLife.Wise.Chain

/-! # The resumable walk over a Wise package

The same chain as `Wise.Chain`, one bounded unit of work per `advance`, with a
read miss in place of every blocking read. The overlay and header scans run over
one pinned window and are parameters, as is the mapping from the script.
-/

namespace OpenHalfLife.Backends

open Machine Wise

set_option autoImplicit false

structure Overlay where
  offset : Nat
  len : Nat
  imageLen : Nat
  deriving DecidableEq, Repr

structure WiseEntry where
  token : UInt64
  sizeBytes : UInt64
  compressedOffset : Nat
  declaredCrc32 : UInt32
  deriving DecidableEq, Repr

structure WiseMapping where
  entries : List WiseEntry
  recordedName : UInt64 → Option (List UInt8)

structure WiseFormat where
  findOverlay : Limits → WindowSource → Except (Stop WiseError) Overlay
  locateFirstStream : Limits → Overlay → WindowSource → Except (Stop WiseError) Nat
  mapScript : Limits → Overlay → List StreamRecord → List UInt8 → WiseMapping

inductive Advance
  | working
  | needRead
  | ready
  deriving DecidableEq, Repr

structure Walk where
  overlay : Overlay
  cursor : Nat
  index : Nat
  totalInflated : Nat
  skip : Nat
  started : Bool
  first : Option (Except WiseError StreamMetrics)

structure Script where
  overlay : Overlay
  started : Bool
  bytes : List UInt8

inductive Stage
  | overlay
  | header (overlay : Overlay)
  | walk (walk : Walk)
  | script (script : Script)
  | ready

structure WiseBackend (σ : Type) where
  limits : Limits
  stage : Stage
  reader : StreamReader σ
  streams : List StreamRecord
  mapping : Option WiseMapping

namespace WiseBackend

variable {σ α : Type}

def new (inflater : Transducer σ) (limits : Limits) : WiseBackend σ where
  limits
  stage := .overlay
  reader := .new inflater 0 limits
  streams := []
  mapping := none

abbrev Walking (σ α : Type) := Machine (Stop WiseError) (WiseBackend σ × WindowSource) α

def onWindow (m : Machine (Stop WiseError) WindowSource α) : Walking σ α :=
  .zoom Prod.snd (fun window s => (s.1, window)) id m

def onReading (m : Machine (Stop WiseError) (StreamReader σ × WindowSource) α) : Walking σ α :=
  .zoom (fun s => (s.1.reader, s.2)) (fun r s => ({ s.1 with reader := r.1 }, r.2)) id m

def setStage (stage : Stage) : Walking σ Unit :=
  modify fun s => ({ s.1 with stage }, s.2)

def onPinned (scan : WindowSource → Except (Stop WiseError) α) :
    Machine (Stop WiseError) WindowSource α := do
  modify WindowSource.pin
  let found := scan (← get)
  modify WindowSource.unpin
  ofExcept id found

def advanceOverlay (format : WiseFormat) : Walking σ Advance := do
  if ← onWindow (WindowSource.ensureAt 0) then
    let (backend, _) ← get
    let overlay ← onWindow (onPinned (format.findOverlay backend.limits))
    setStage (.header overlay)
    return .working
  else
    setStage .overlay
    return .needRead

def advanceHeader (format : WiseFormat) (overlay : Overlay) : Walking σ Advance := do
  if ← onWindow (WindowSource.ensureAt overlay.offset) then
    let (backend, _) ← get
    let first ← onWindow (onPinned (format.locateFirstStream backend.limits overlay))
    setStage (.walk ⟨overlay, first, 0, 0, 0, false, none⟩)
    return .working
  else
    setStage (.header overlay)
    return .needRead

def driveTurn (inflater : Transducer σ) :
    Machine (Stop WiseError) (StreamReader σ × WindowSource) (Option StreamMetrics) := do
  let (reader, _) ← get
  if reader.finished = true then
    return some (← StreamReader.finish)
  else
    let written ← StreamReader.read inflater reader.limits.chunkBytes
    let (reader, _) ← get
    rejectIf (written = [] ∧ reader.finished = false) (.error .truncated)
    return none

def driveAttempt (inflater : Transducer σ) :
    Machine (Stop WiseError) (StreamReader σ × WindowSource) StreamMetrics :=
  loop (driveTurn inflater) streamTurns

theorem preserves_driveAttempt {I : WindowSource → Prop} (inflater : Transducer σ)
    (h : ∀ offset room, Preserves I (WindowSource.read offset room)) :
    Preserves (fun s => I s.2) (driveAttempt inflater) := by
  apply Preserves.loop
  apply preserves_get.bind
  rintro ⟨reader, _⟩
  apply Preserves.ite
  · exact (StreamReader.preserves_finish h).bind fun _ => preserves_pure _
  · apply (StreamReader.preserves_read h _ _).bind
    intro written
    apply preserves_get.bind
    rintro ⟨reader, _⟩
    exact (preserves_rejectIf _ _).bind fun _ => preserves_pure _

def accept (walk : Walk) (metrics : StreamMetrics) : Walking σ Walk := do
  let (backend, _) ← get
  let total := walk.totalInflated + metrics.inflatedLen
  rejectIf (total ≥ 2 ^ 64) (.error (.limitExceeded .totalInflatedBytes))
  rejectIf (total > backend.limits.maxTotalInflatedBytes.toNat)
    (.error (.limitExceeded .totalInflatedBytes))
  modify fun s =>
    ({ s.1 with streams := s.1.streams ++ [⟨walk.index, metrics, walk.skip⟩] }, s.2)
  rejectIf (walk.index + 1 ≥ 2 ^ 32) (.error (.limitExceeded .streams))
  let cursor ← metrics.nextOffset
  return ⟨walk.overlay, cursor, walk.index + 1, total, 0, false, none⟩

def finishAttempts (walk : Walk) : Walking σ Advance := do
  match walk.first with
  | some (.ok metrics) =>
    let walk ← accept { walk with skip := 0, started := false, first := none } metrics
    setStage (.walk walk)
    return .working
  | some (.error e) => throw (.error e)
  | none => throw (.error .truncated)

def nextAttempt (walk : Walk) : Walking σ Advance := do
  let (backend, _) ← get
  if walk.skip < backend.limits.maxResyncSkip.toNat then
    setStage (.walk { walk with skip := walk.skip + 1, started := false })
    return .working
  else
    finishAttempts walk

def Walk.keep (walk : Walk) (result : Except WiseError StreamMetrics) : Walk :=
  if walk.skip = 0 then { walk with first := some result } else walk

def concludeAttempt (walk : Walk) : Except (Stop WiseError) StreamMetrics → Walking σ Advance
  | .ok metrics =>
    if metrics.checksum = .match_ then do
      let walk ← accept walk metrics
      setStage (.walk walk)
      return .working
    else
      nextAttempt (Walk.keep walk (.ok metrics))
  | .error (.error e) =>
    if e = .sourceFailed then do
      setStage (.walk walk)
      return .needRead
    else if e.isFinal then
      throw (.error e)
    else
      nextAttempt (Walk.keep walk (.error e))
  | .error stop => throw stop

def startAttempt (inflater : Transducer σ) (walk : Walk) (offset : Nat) : Walking σ Walk := do
  if walk.started = true then
    return walk
  else
    onReading (modify fun r => (r.1.restart inflater offset, r.2))
    return { walk with started := true }

def advanceWalk (inflater : Transducer σ) (walk : Walk) : Walking σ Advance := do
  let (backend, _) ← get
  if walk.cursor ≥ walk.overlay.imageLen ∨ walk.overlay.imageLen - walk.cursor < minStreamBytes then
    setStage (.script ⟨walk.overlay, false, []⟩)
    return .working
  else
    rejectIf (walk.index ≥ backend.limits.maxStreams.toNat) (.error (.limitExceeded .streams))
    -- saturating_add
    let offset := min (walk.cursor + walk.skip) (2 ^ 64 - 1)
    if offset ≥ walk.overlay.imageLen then
      finishAttempts walk
    else
      let walk ← startAttempt inflater walk offset
      concludeAttempt walk (← attempt (onReading (driveAttempt inflater)))

def scriptTurn (inflater : Transducer σ) (ceiling : Nat) :
    Machine (Stop WiseError) ((StreamReader σ × WindowSource) × List UInt8) (Option Unit) := do
  let ((reader, _), _) ← get
  if reader.finished = true then
    return some ()
  else
    let written ← .zoom Prod.fst (fun r s => (r, s.2)) id
      (StreamReader.read inflater reader.limits.chunkBytes)
    let ((reader, _), bytes) ← get
    rejectIf (written = [] ∧ reader.finished = false) (.error .truncated)
    rejectIf (bytes.length + written.length > ceiling) (.error (.limitExceeded .scriptBytes))
    modify fun s => (s.1, s.2 ++ written)
    return none

def finishMapping (format : WiseFormat) (overlay : Overlay) (script : List UInt8) : Walking σ Unit :=
  modify fun s =>
    ({ s.1 with
        stage := .ready
        mapping := some (format.mapScript s.1.limits overlay s.1.streams script) }, s.2)

def readScript (inflater : Transducer σ) (ceiling : Nat) (bytes : List UInt8) :
    Walking σ (Except (Stop WiseError) Unit × List UInt8) :=
  .ofFun fun s =>
    let result := (loop (scriptTurn inflater ceiling) streamTurns).exec ((s.1.reader, s.2), bytes)
    (.ok (result.1, result.2.2), ({ s.1 with reader := result.2.1.1 }, result.2.1.2))

def concludeScript (format : WiseFormat) (script : Script) :
    Except (Stop WiseError) Unit → Walking σ Advance
  | .ok () => do
    finishMapping format script.overlay script.bytes
    return .ready
  | .error stop =>
    if stop = .error .sourceFailed then do
      setStage (.script script)
      return .needRead
    else if stop = .error (.limitExceeded .inflatedBytesPerStream) then
      throw (.error (.limitExceeded .scriptBytes))
    else
      throw stop

def startScript (inflater : Transducer σ) (script : Script) (record : StreamRecord) :
    Walking σ Unit := do
  if script.started = true then
    return ()
  else
    onReading (modify fun r => (r.1.restart inflater record.metrics.compressedOffset, r.2))

def advanceScript (inflater : Transducer σ) (format : WiseFormat) (script : Script) :
    Walking σ Advance := do
  let (backend, _) ← get
  match backend.streams[1]? with
  | none =>
    finishMapping format script.overlay []
    return .ready
  | some record =>
    startScript inflater script record
    let ceiling := min backend.limits.maxInflatedBytesPerStream.toNat
      backend.limits.maxScriptBytes.toNat
    let (result, bytes) ← readScript inflater ceiling script.bytes
    concludeScript format ⟨script.overlay, true, bytes⟩ result

/-- The stage is `ready` while one of them runs, and stays so after an error. -/
def advance (inflater : Transducer σ) (format : WiseFormat) : Walking σ Advance := do
  let (backend, _) ← get
  setStage .ready
  match backend.stage with
  | .overlay => advanceOverlay format
  | .header overlay => advanceHeader format overlay
  | .walk walk => advanceWalk inflater walk
  | .script script => advanceScript inflater format script
  | .ready => return .ready

def answer (image : List UInt8) : Machine (Stop WiseError) WindowSource Unit := do
  let window ← get
  match window.pending with
  | none => throw .panic
  | some read =>
    let delivered := window.takePending.2.deliver read.offset ((image.drop read.offset).take read.length)
    set delivered.2
    assertOrPanic (delivered.1 = true)

def serveAdvance (image : List UInt8) : Advance → Walking σ (Option Unit)
  | .needRead => do
    onWindow (answer image)
    return none
  | _ => return none

def walkTurn (inflater : Transducer σ) (format : WiseFormat) (image : List UInt8) :
    Walking σ (Option Unit) := do
  let (backend, _) ← get
  match backend.stage with
  | .walk _ => serveAdvance image (← advance inflater format)
  | _ => return some ()

end WiseBackend

end OpenHalfLife.Backends
