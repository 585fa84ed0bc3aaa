import OpenHalfLife.Lib.Bytes
import OpenHalfLife.Lib.Sorted
import OpenHalfLife.Payload.Layout

/-! # Replacement overlays

The files of a patch over the published tree of an earlier import. One walk
over the tree fills the map of entries, and the identity of the result covers
every file of the tree that stays.
-/

namespace OpenHalfLife.Patch

open Machine Payload
open Import (slash)

set_option autoImplicit false

inductive ImportError
  | media
  | layout
  | store
  | cancelled
  deriving DecidableEq, Repr

structure MediaDigest where
  bytes : Vector UInt8 32
  deriving DecidableEq

def MediaDigest.toHex (digest : MediaDigest) : Text :=
  digest.bytes.toList.flatMap fun byte : UInt8 => [hexDigit (byte >>> 4), hexDigit (byte &&& 0x0f)]

/-- An open file. `verifyUnchanged` may answer differently each time it is asked. -/
structure MediaSource where
  size : UInt64
  readExactAt (offset count : Nat) : Option (Vector UInt8 count)
  verifyUnchanged : Nat → Bool

inductive FileType
  | directory
  | file
  | other
  deriving DecidableEq, Repr

/-- One name of a directory; `fileName` is `none` if it is not Unicode. -/
structure DirEntry (H : Type) where
  fileName : Option Text
  path : H
  fileType : Option FileType

structure FileSystem (H : Type) where
  isDirectory : H → Bool
  readDir : H → Option (List (Option (DirEntry H)))
  openSource : H → Option MediaSource

structure FileSystem.Reordered {H : Type} (fs fs' : FileSystem H) : Prop where
  isDirectory : fs'.isDirectory = fs.isDirectory
  openSource : fs'.openSource = fs.openSource
  readDir : ∀ path, Option.Rel List.Perm (fs.readDir path) (fs'.readDir path)

structure BasePayload (H : Type) where
  identity : Text
  files : H

structure BaseFile (H : Type) where
  path : H
  size : UInt64
  digest : MediaDigest
  deriving DecidableEq

structure Overlay (H : Type) where
  entries : List PayloadEntryMetadata
  files : SortedMap UInt64 (BaseFile H)
  identity : Option Text

def bufferBytes : Nat := 64 * 1024

def offsets (size : UInt64) : List Nat := List.range' 0 ((size.toNat + bufferBytes - 1) / bufferBytes) bufferBytes

def chunkLength (size : UInt64) (offset : Nat) : Nat := min (size.toNat - offset) bufferBytes

/-- A sum that stays at the greatest `u64` once it is there. -/
def saturate (sum : Nat) : Nat := min sum (2 ^ 64 - 1)

def orError {α : Type} (e : ImportError) : Option α → Except ImportError α
  | some a => .ok a
  | none => .error e

/-- Everything a walk is given. `stop` says which of its questions is told to stop. -/
structure Setting (H : Type) where
  fs : FileSystem H
  sha : Text → MediaDigest
  stop : Nat → Bool
  limits : PayloadImportLimits

structure Task (H : Type) where
  directory : H
  parent : Text
  depth : Nat

structure Walk (H : Type) where
  entries : SortedMap Text PayloadEntryMetadata
  polls : Nat
  token : UInt64
  visited : Nat
  pathBytes : Nat
  totalBytes : Nat
  baseKeys : Finset Text
  fingerprints : SortedMap Text MediaDigest
  files : SortedMap UInt64 (BaseFile H)

namespace Setting

variable {H : Type} (setting : Setting H)

def poll (polls : Nat) : Except ImportError Nat := if setting.stop polls then .error .cancelled else .ok (polls + 1)

def hashChunk (source : MediaSource) (hashed : Text × Nat) (offset : Nat) : Except ImportError (Text × Nat) := do
  let polls ← setting.poll hashed.2
  let buffer ← orError .media (source.readExactAt offset (chunkLength source.size offset))
  return (hashed.1 ++ buffer.toList, polls)

def hashSource (source : MediaSource) (polls : Nat) : Except ImportError (MediaDigest × Nat) :=
  if source.verifyUnchanged 0 = false then .error .media
  else do
    let hashed ← (offsets source.size).foldlM (setting.hashChunk source) ([], polls)
    if source.verifyUnchanged 1 = false then .error .media
    else .ok (setting.sha hashed.1, hashed.2)

def openDirectory (task : Task H) (walk : Walk H) : Except ImportError (List (Option (DirEntry H)) × Walk H) := do
  let polls ← setting.poll walk.polls
  if task.depth > 64 ∨ setting.fs.isDirectory task.directory = false then .error .layout
  else
    let listing ← orError .store (setting.fs.readDir task.directory)
    return (listing, { walk with polls })

def join (parent name : Text) : Text := if parent = [] then name else parent ++ slash :: name

/-- The checks that every child passes, with its path, its kind and its relative name. -/
def countChild (task : Task H) (walk : Walk H) (child : Option (DirEntry H)) :
    Except ImportError ((H × FileType × Text) × Walk H) := do
  let polls ← setting.poll walk.polls
  let child ← orError .store child
  if walk.visited + 1 ≥ 2 ^ 64 then .error .layout
  else if walk.visited + 1 > min (setting.limits.maximumEntries * 2) (2 ^ 64 - 1) then .error .layout
  else
    let name ← orError .layout child.fileName
    let relative := join task.parent name
    let pathBytes := saturate (walk.pathBytes + relative.length)
    if pathBytes > setting.limits.maximumPathBytes.toNat then .error .layout
    else
      let kind ← orError .store child.fileType
      return ((child.path, kind, relative), { walk with polls, visited := walk.visited + 1, pathBytes })

def addBaseFile (path : H) (key : Text) (walk : Walk H) : Except ImportError (Walk H) := do
  let source ← orError .store (setting.fs.openSource path)
  let totalBytes := saturate (walk.totalBytes + source.size.toNat)
  if source.size > setting.limits.maximumEntryBytes ∨ totalBytes > setting.limits.maximumTotalBytes.toNat then
    .error .layout
  else
    let (digest, polls) ← setting.hashSource source walk.polls
    if walk.token.toNat + 1 ≥ 2 ^ 64 then .error .layout
    else
      let token := walk.token + 1
      let entries := walk.entries.insert key ⟨token, key, source.size⟩
      if entries.pairs.length > setting.limits.maximumEntries then .error .layout
      else
        return { walk with
          polls, totalBytes, token, entries
          fingerprints := walk.fingerprints.insert key digest
          files := walk.files.insert token ⟨path, source.size, digest⟩ }

def visitFile (path : H) (relative : Text) (walk : Walk H) : Except ImportError (Walk H) :=
  match PayloadPath.parse relative with
  | .error _ => .error .layout
  | .ok normalized =>
    let key := normalized.portabilityKey
    if key ∈ walk.baseKeys then .error .layout
    else
      let walk := { walk with baseKeys := Insert.insert key walk.baseKeys }
      if (walk.entries.get? key).isSome then .ok walk
      else setting.addBaseFile path key walk

def visitChild (task : Task H) (state : List (Task H) × Walk H) (child : Option (DirEntry H)) :
    Except ImportError (List (Task H) × Walk H) := do
  let ((path, kind, relative), walk) ← setting.countChild task state.2 child
  match kind with
  | .directory => return (⟨path, relative, task.depth + 1⟩ :: state.1, walk)
  | .file =>
    let walk ← setting.visitFile path relative walk
    return (state.1, walk)
  | .other => .error .layout

def walkTree : Nat → List (Task H) × Walk H → Except ImportError (Walk H)
  | _, ([], walk) => .ok walk
  | 0, _ => .error .layout
  | fuel + 1, (task :: pending, walk) => do
    let (listing, walk) ← setting.openDirectory task walk
    let state ← listing.foldlM (setting.visitChild task) (pending, walk)
    walkTree fuel state

end Setting

def normalize (entry : PayloadEntryMetadata) : Except ImportError PayloadEntryMetadata :=
  match PayloadPath.parse entry.archivePath with
  | .error _ => .error .layout
  | .ok path => .ok { entry with archivePath := path.portabilityKey }

def addPatchEntry (entries : SortedMap Text PayloadEntryMetadata) (entry : PayloadEntryMetadata) :
    Except ImportError (SortedMap Text PayloadEntryMetadata) := do
  let entry ← normalize entry
  return entries.insert entry.archivePath entry

def greatestToken (patch : List PayloadEntryMetadata) : UInt64 :=
  (patch.map PayloadEntryMetadata.sourceToken).max?.getD 0

def overlayFormat : Text := text "ohl-replacement-overlay-v1" ++ [0]

def fingerprint (pair : Text × MediaDigest) : Text :=
  toLe 8 pair.1.length ++ pair.1 ++ pair.2.bytes.toList

namespace Overlay

variable {H : Type} (setting : Setting H)

def start (entries : SortedMap Text PayloadEntryMetadata) (token : UInt64) : Walk H where
  polls := 0
  entries
  token
  visited := 0
  pathBytes := 0
  totalBytes := 0
  baseKeys := ∅
  fingerprints := .empty
  files := .empty

def walkFuel (limits : PayloadImportLimits) : Nat := limits.maximumEntries * 2 + 1

def prepareOver (base : BasePayload H) (patch : List PayloadEntryMetadata) : Except ImportError (Overlay H) :=
  if base.identity = [] ∨ base.identity.length > 96 then .error .layout
  else do
    let entries ← patch.foldlM addPatchEntry .empty
    let walk ← setting.walkTree (walkFuel setting.limits) ([⟨base.files, [], 0⟩], start entries (greatestToken patch))
    return {
      entries := walk.entries.values
      files := walk.files
      identity := some (setting.sha (overlayFormat ++ base.identity ++
        walk.fingerprints.pairs.flatMap fingerprint)).toHex }

def prepare (base : Option (BasePayload H)) (patch : List PayloadEntryMetadata) :
    Except (Stop ImportError) (Overlay H) :=
  match planPayloadLayout patch setting.limits with
  | .error (.error _) => .error (.error .layout)
  | .error .panic => .error .panic
  | .error .stuck => .error .stuck
  | .ok _ =>
    match base with
    | none => .ok ⟨patch, .empty, none⟩
    | some base => (prepareOver setting base patch).mapError .error

end Overlay

abbrev Streamed := Bool × List Text

structure Streaming where
  given : List Text
  hashed : Text

def streamChunk (stop : Nat → Bool) (sink : List Text → Text → Bool) (source : MediaSource) (size : UInt64)
    (streaming : Streaming) (offset : Nat) : Except (List Text) Streaming :=
  if stop streaming.given.length then .error streaming.given
  else match source.readExactAt offset (chunkLength size offset) with
    | none => .error streaming.given
    | some buffer =>
      let given := streaming.given ++ [buffer.toList]
      if sink streaming.given buffer.toList = false then .error given
      else .ok ⟨given, streaming.hashed ++ buffer.toList⟩

def Overlay.stream {H : Type} (overlay : Overlay H) (fs : FileSystem H) (sha : Text → MediaDigest)
    (stop : Nat → Bool) (sink : List Text → Text → Bool) (patch : UInt64 → Streamed) (token : UInt64) : Streamed :=
  match overlay.files.get? token with
  | none => patch token
  | some file =>
    match fs.openSource file.path with
    | none => (false, [])
    | some source =>
      if source.size ≠ file.size ∨ source.verifyUnchanged 0 = false then (false, [])
      else match (offsets file.size).foldlM (streamChunk stop sink source file.size) ⟨[], []⟩ with
        | .error given => (false, given)
        | .ok streaming => (source.verifyUnchanged 1 && decide (sha streaming.hashed = file.digest), streaming.given)

end OpenHalfLife.Patch
