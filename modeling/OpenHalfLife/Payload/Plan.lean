import OpenHalfLife.Lib.Machine
import Mathlib.Data.Nat.Digits.Defs

/-! # Staging plans

What one transaction stages: an identity that names the published directory,
and the files below it in the order they are written. A string is the list of
its UTF-8 bytes.
-/

namespace OpenHalfLife.Payload

set_option autoImplicit false

abbrev Text := List UInt8

def text (s : String) : Text := s.toByteArray.data.toList

def decimal (n : Nat) : Text :=
  if n = 0 then [0x30] else (Nat.digits 10 n).reverse.map fun digit => UInt8.ofNat (0x30 + digit)

def maximumCompletionBytes : Nat := 4096

def maximumIdentityBytes : Nat := 96

def maximumChunkBytes : Nat := 1024 * 1024

def publishedPrefix : Text := text "ohl-tree-"

def filesDirectory : Text := text "files"

def completionName : Text := text ".ohl-payload-complete-v1"

def completionFormat : Text := text "ohl-payload-completion-v1"

inductive PayloadStoreError
  | invalidState
  | ioFailure
  | unsafeDestination
  | resourceExhausted
  | unsupported
  deriving DecidableEq, Repr

structure StagingEntry where
  components : List Text
  sizeBytes : UInt64
  deriving DecidableEq, Repr

def validComponent (component : Text) : Bool :=
  component ≠ [] ∧ component ≠ text "." ∧ component ≠ text ".." ∧
    component.all fun byte => byte ≠ 0x2f ∧ byte ≠ 0x5c ∧ byte ≠ 0

def validIdentity (identity : Text) : Bool :=
  identity ≠ [] ∧ identity.length ≤ maximumIdentityBytes ∧ identity.all fun byte => 0x21 ≤ byte ∧ byte ≤ 0x7e

def validEntry (entry : StagingEntry) : Bool :=
  entry.components ≠ [] ∧ entry.components.all validComponent

def totalBytes (entries : List StagingEntry) : Nat := (entries.map fun entry => entry.sizeBytes.toNat).sum

structure StagingPlan where
  identity : Text
  entries : List StagingEntry
  identity_valid : validIdentity identity = true
  entries_valid : entries.all validEntry = true
  total_lt : totalBytes entries < 2 ^ 64
  deriving DecidableEq

namespace StagingPlan

/-- The sum is checked entry by entry in the source; sizes are not negative, so
no sum on the way is larger than the last. -/
def new (identity : Text) (entries : List StagingEntry) : Except PayloadStoreError StagingPlan :=
  if h : validIdentity identity = true ∧ entries.all validEntry = true ∧ totalBytes entries < 2 ^ 64 then
    .ok ⟨identity, entries, h.1, h.2.1, h.2.2⟩
  else
    .error .invalidState

def completionDocument (plan : StagingPlan) : Text :=
  text "\x7b\"format\":\"" ++ completionFormat ++ text "\",\"identity\":\"" ++ plan.identity ++
    text "\",\"entry_count\":" ++ decimal plan.entries.length ++
    text ",\"total_bytes\":" ++ decimal (totalBytes plan.entries) ++ text "\x7d"

end StagingPlan

def hexDigit (nibble : UInt8) : UInt8 := if nibble < 10 then 0x30 + nibble else 0x57 + nibble

def publishedDirectoryName (identity : Text) : Option Text :=
  if validIdentity identity = true then
    some (publishedPrefix ++ identity.flatMap fun byte : UInt8 => [hexDigit (byte >>> 4), hexDigit (byte &&& 0x0f)])
  else
    none

def StagingPlan.publishedName (plan : StagingPlan) : Text :=
  (publishedDirectoryName plan.identity).getD []

inductive ProbeState
  | absent
  | matching
  | conflict
  deriving DecidableEq, Repr

inductive PublishState
  | published
  | destinationExists
  deriving DecidableEq, Repr

end OpenHalfLife.Payload

namespace OpenHalfLife.Payload

/-! ## The native file system

What this process made below its staging directory, and an oracle for all the
rest: every native call may fail, and a write that fails may have appended any
part of its bytes. A name is never created twice.
-/

open Machine

set_option autoImplicit false

inductive IoErrorKind
  | alreadyExists
  | permissionDenied
  | notFound
  | outOfMemory
  | storageFull
  | other
  deriving DecidableEq, Repr

inductive AtomicDirectoryError
  | invalidState
  | ioFailure
  | unsafeDestination
  | resourceExhausted
  | unsupported
  deriving DecidableEq, Repr

def AtomicDirectoryError.toStore : AtomicDirectoryError → PayloadStoreError
  | .invalidState => .invalidState
  | .unsafeDestination => .unsafeDestination
  | .resourceExhausted => .resourceExhausted
  | .unsupported => .unsupported
  | .ioFailure => .ioFailure

inductive Rename
  | done
  | destinationExists
  | failed (error : AtomicDirectoryError)
  deriving DecidableEq, Repr

/-- The world's part in one native call: how it fails, how much of a failed write
reached the file, and what a rename does. -/
structure Answer where
  error : Option IoErrorKind
  appended : Nat
  rename : Rename

def Answer.fine : Answer := ⟨none, 0, .done⟩

abbrev Path := List Text

structure Native where
  answers : Nat → Answer
  turn : Nat
  directories : List Path
  files : List (Path × List UInt8)
  madeDirectories : List Path
  madeFiles : List Path

/-- A privately owned staging directory. Its contents are those of `Native`: there is
only one at a time. -/
structure StagingDirectory where
  nonce : Nat
  deriving DecidableEq, Repr

namespace Native

def new (answers : Nat → Answer) : Native := ⟨answers, 0, [], [], [], []⟩

def Exists (native : Native) (path : Path) : Prop :=
  path ∈ native.directories ∨ path ∈ native.files.map Prod.fst

instance (native : Native) (path : Path) : Decidable (native.Exists path) := inferInstanceAs (Decidable (_ ∨ _))

def next (native : Native) : Native := { native with turn := native.turn + 1 }

def answer (native : Native) : Answer := native.answers native.turn

def act (change : Native → Native) : Machine IoErrorKind Native Unit := do
  let native ← get
  set native.next
  match native.answer.error with
  | some kind => throw kind
  | none => modify change

def createDir (path : Path) : Machine IoErrorKind Native Unit := do
  rejectIf ((← get).Exists path) .alreadyExists
  act fun native =>
    { native with
      directories := native.directories ++ [path]
      madeDirectories := native.madeDirectories ++ [path] }

/-- `create_new`, and no link is followed. -/
def createFile (path : Path) : Machine IoErrorKind Native Unit := do
  rejectIf ((← get).Exists path) .alreadyExists
  act fun native =>
    { native with
      files := native.files ++ [(path, [])]
      madeFiles := native.madeFiles ++ [path] }

def append (path : Path) (bytes : List UInt8) (native : Native) : Native :=
  { native with
    files := native.files.map fun file => if file.1 = path then (file.1, file.2 ++ bytes) else file }

def writeAll (path : Path) (bytes : List UInt8) : Machine IoErrorKind Native Unit := do
  let native ← get
  set native.next
  match native.answer.error with
  | some kind => do
    modify fun native' => native'.append path (bytes.take native.answer.appended)
    throw kind
  | none => modify fun native => native.append path bytes

def syncAll : Machine IoErrorKind Native Unit := act id

def createStaging : Machine AtomicDirectoryError Native StagingDirectory := do
  let native ← get
  set native.next
  match native.answer.error with
  | some .alreadyExists => throw .resourceExhausted
  | some .outOfMemory => throw .resourceExhausted
  | some _ => throw .ioFailure
  | none => do
    modify fun native => { native with directories := [], files := [] }
    return ⟨native.turn⟩

def renameNoReplace : Machine AtomicDirectoryError Native Bool := do
  let native ← get
  set native.next
  match native.answer.rename with
  | .done => return true
  | .destinationExists => return false
  | .failed error => throw error

def removeStaging : Machine AtomicDirectoryError Native Unit := do
  let native ← get
  set native.next
  match native.answer.error with
  | some .notFound => return ()
  | some _ => throw .ioFailure
  | none => modify fun native => { native with directories := [], files := [] }

end Native

end OpenHalfLife.Payload
