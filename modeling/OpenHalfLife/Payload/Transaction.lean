import OpenHalfLife.Lib.Checked
import OpenHalfLife.Payload.Plan

/-! # The directory transaction

Staging one plan below an exclusively created directory. Every call may come at
any time; an error leaves what the call did until then.
-/

namespace OpenHalfLife.Payload

open Machine

set_option autoImplicit false

inductive TransactionState
  | created
  | staging
  | ready
  | published
  | finished
  deriving DecidableEq, Repr

/-- `path` stands for the native handle. -/
structure OpenFile where
  path : Path
  expectedSize : Nat
  written : Nat
  deriving DecidableEq, Repr

/-- A relative directory name is the list of its components; the source joins them by `/`,
which no component holds. -/
structure DirectoryTransaction where
  state : TransactionState
  staging : Option StagingDirectory
  plan : Option StagingPlan
  createdDirectories : List Path
  nextEntry : Nat
  openEntry : Option OpenFile

def mapIo : IoErrorKind → PayloadStoreError
  | .alreadyExists | .permissionDenied => .unsafeDestination
  | .outOfMemory | .storageFull => .resourceExhausted
  | _ => .ioFailure

abbrev World := DirectoryTransaction × Native

namespace DirectoryTransaction

abbrev Method (α : Type) := Machine PayloadStoreError World α

variable {α : Type}

def new : DirectoryTransaction where
  state := .created
  staging := none
  plan := none
  createdDirectories := []
  nextEntry := 0
  openEntry := none

def onNative (m : Machine IoErrorKind Native α) : Method α :=
  .zoom Prod.snd (fun native w => (w.1, native)) mapIo m

def onStaging (m : Machine AtomicDirectoryError Native α) : Method α :=
  .zoom Prod.snd (fun native w => (w.1, native)) AtomicDirectoryError.toStore m

def update (change : DirectoryTransaction → DirectoryTransaction) : Method Unit :=
  modify fun w => (change w.1, w.2)

def orInvalid (o : Option α) : Method α :=
  match o with
  | some a => pure a
  | none => throw .invalidState

def createFiles : Method Unit := do
  match ← attempt (onNative (Native.createDir [filesDirectory])) with
  | .ok () => return ()
  | .error e => do
    let _ ← (attempt (onStaging Native.removeStaging) : Method (Except PayloadStoreError Unit))
    throw e

def begin (plan : StagingPlan) : Method Unit := do
  let (tx, _) ← get
  rejectIf (tx.state ≠ .created) .invalidState
  let staging ← onStaging Native.createStaging
  createFiles
  update fun tx => { tx with staging := some staging, plan := some plan, state := .staging }

def createParent (relative : Path) : Method Unit := do
  let (tx, _) ← get
  if relative ∈ tx.createdDirectories then
    return ()
  else
    update fun tx => { tx with createdDirectories := tx.createdDirectories ++ [relative] }
    onNative (Native.createDir (filesDirectory :: relative))

def createParents (relative : Path) : List Text → Method Unit
  | [] => return ()
  | component :: components => do
    createParent (relative ++ [component])
    createParents (relative ++ [component]) components

def createEntry (components : List Text) (expectedSize : UInt64) : Method Unit := do
  createParents [] components.dropLast
  onNative (Native.createFile (filesDirectory :: components))
  update fun tx => { tx with openEntry := some ⟨filesDirectory :: components, expectedSize.toNat, 0⟩ }

def openFile (components : List Text) (expectedSize : UInt64) : Method Unit := do
  let (tx, _) ← get
  rejectIf (tx.state ≠ .staging ∨ tx.openEntry ≠ none) .invalidState
  let plan ← orInvalid tx.plan
  let expected ← orInvalid plan.entries[tx.nextEntry]?
  rejectIf (expected.components ≠ components ∨ expected.sizeBytes ≠ expectedSize) .invalidState
  let _ ← orInvalid tx.staging
  createEntry components expectedSize

def writeChunk (bytes : List UInt8) : Method Unit := do
  let (tx, _) ← get
  rejectIf (tx.state ≠ .staging ∨ bytes.length > maximumChunkBytes) .invalidState
  let file ← orInvalid tx.openEntry
  rejectIf (bytes.length > file.expectedSize - file.written) .invalidState
  onNative (Native.writeAll file.path bytes)
  update fun tx => { tx with openEntry := some { file with written := file.written + bytes.length } }

def sealFile : Method Unit := do
  let (tx, _) ← get
  rejectIf (tx.state ≠ .staging) .invalidState
  let file ← orInvalid tx.openEntry
  update fun tx => { tx with openEntry := none }
  rejectIf (file.written ≠ file.expectedSize) .invalidState
  onNative Native.syncAll
  update fun tx => { tx with nextEntry := tx.nextEntry + 1 }

def writeCompletion (document : Text) : Method Unit := do
  onNative (Native.createFile [completionName])
  onNative (Native.writeAll [completionName] document)
  onNative Native.syncAll

/-- Every directory, then `files` and the staging directory. The source goes deepest first;
which sync fails is the oracle's in any order. -/
def syncDirectories (count : Nat) : Method Unit := (List.replicate (count + 2) ()).forM fun _ => onNative Native.syncAll

def sealCompletion : Method Unit := do
  let (tx, _) ← get
  let plan ← orInvalid tx.plan
  rejectIf (tx.state ≠ .staging ∨ tx.openEntry ≠ none ∨ tx.nextEntry ≠ plan.entries.length) .invalidState
  rejectIf (plan.completionDocument.length > maximumCompletionBytes) .invalidState
  let _ ← orInvalid tx.staging
  writeCompletion plan.completionDocument
  syncDirectories tx.createdDirectories.length
  update fun tx => { tx with state := .ready }

def concludePublish (staging : StagingDirectory) : Except AtomicDirectoryError Bool → Method PublishState
  | .ok true => do
    update fun tx => { tx with state := .published }
    return .published
  | .ok false => do
    update fun tx => { tx with staging := some staging }
    return .destinationExists
  | .error e => do
    update fun tx => { tx with staging := some staging }
    throw e.toStore

def publishNoReplace : Method PublishState := do
  let (tx, _) ← get
  rejectIf (tx.state ≠ .ready) .invalidState
  let _ ← orInvalid tx.plan
  let staging ← orInvalid tx.staging
  update fun tx => { tx with staging := none }
  let renamed ← attempt (.zoom Prod.snd (fun native (w : World) => (w.1, native)) id Native.renameNoReplace)
  concludePublish staging renamed

def syncPublishedParent : Method Unit := do
  let (tx, _) ← get
  rejectIf (tx.state ≠ .published) .invalidState
  onNative Native.syncAll

def abort : Method Unit := do
  let (tx, _) ← get
  rejectIf (tx.state = .published) .invalidState
  update fun tx => { tx with openEntry := none, staging := none, state := .finished }
  match tx.staging with
  | none => return ()
  | some _ => onStaging Native.removeStaging

end DirectoryTransaction

inductive TransactionCall
  | begin (plan : StagingPlan)
  | openFile (components : List Text) (expectedSize : UInt64)
  | writeChunk (bytes : List UInt8)
  | sealFile
  | sealCompletion
  | publishNoReplace
  | syncPublishedParent
  | abort

abbrev TransactionReply := Except PayloadStoreError (Option PublishState)

namespace DirectoryTransaction

def call : TransactionCall → Method (Option PublishState)
  | .begin plan => do begin plan; return none
  | .openFile components expectedSize => do openFile components expectedSize; return none
  | .writeChunk bytes => do writeChunk bytes; return none
  | .sealFile => do sealFile; return none
  | .sealCompletion => do sealCompletion; return none
  | .publishNoReplace => do return some (← publishNoReplace)
  | .syncPublishedParent => do syncPublishedParent; return none
  | .abort => do abort; return none

def run (w : World) (calls : List TransactionCall) : World := calls.foldl (fun w c => ((call c).exec w).2) w

theorem run_append (w : World) (calls : List TransactionCall) (c : TransactionCall) :
    run w (calls ++ [c]) = ((call c).exec (run w calls)).2 := List.foldl_append

def start (answers : Nat → Answer) : World := (new, .new answers)

end DirectoryTransaction

end OpenHalfLife.Payload
