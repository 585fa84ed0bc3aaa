import OpenHalfLife.Formats.Slice
import OpenHalfLife.Lib.Bytes
import OpenHalfLife.Lib.First
import OpenHalfLife.Lib.Sorted

/-! # The index of the assets

The index maps the normalized path of an asset to the place where its bytes
are. Loose files are found by a walk of each search path, and the members of
its archives by reading their directories.
-/

namespace OpenHalfLife.Assets

set_option autoImplicit false

abbrev Text := List UInt8

def isUtf8 (bytes : List UInt8) : Bool := (decodeUtf8 bytes).isSome

inductive AssetError
  | notFound
  | invalidPath
  | limitExceeded
  | rootUnreadable
  | malformedArchive
  | io
  deriving DecidableEq, Repr

structure PakLimits where
  maxEntries : Nat
  maxEntryBytes : Nat

structure Limits where
  maxIndexedFiles : Nat
  maxDepth : Nat
  maxPathBytes : Nat
  maxComponentBytes : Nat
  maxComponents : Nat
  pak : PakLimits

namespace Limits

def conservative : Limits where
  maxIndexedFiles := 262144
  maxDepth := 32
  maxPathBytes := 4096
  maxComponentBytes := 255
  maxComponents := 32
  pak := ⟨65536, 256 * 1024 * 1024⟩

end Limits

/-! ## Normalized paths -/

def slash : UInt8 := 0x2f

def backslash : UInt8 := 0x5c

def dot : UInt8 := 0x2e

def colon : UInt8 := 0x3a

def toAsciiLowercase (text : Text) : Text :=
  text.map fun byte => if 0x41 ≤ byte ∧ byte ≤ 0x5a then byte + 0x20 else byte

structure NormalizedPath where
  components : List Text
  deriving DecidableEq

namespace NormalizedPath

def display (path : NormalizedPath) : Text := [slash].intercalate path.components

def key (path : NormalizedPath) : Text := toAsciiLowercase path.display

end NormalizedPath

def reservedStems : List Text :=
  ["CON", "PRN", "AUX", "NUL", "COM1", "COM2", "COM3", "COM4", "COM5", "COM6", "COM7", "COM8", "COM9", "LPT1", "LPT2",
    "LPT3", "LPT4", "LPT5", "LPT6", "LPT7", "LPT8", "LPT9"].map utf8Bytes

def isReservedStem (component : Text) : Bool :=
  reservedStems.any fun reserved =>
    toAsciiLowercase (component.takeWhile fun byte => byte ≠ dot) = toAsciiLowercase reserved

def validateComponent (component : Text) (limits : Limits) : Except AssetError Unit :=
  if component = [] ∨ component = [dot] ∨ component = [dot, dot] then .error .invalidPath
  else if limits.maxComponentBytes < component.length then .error .limitExceeded
  else if component.any fun byte => byte < 0x20 ∨ byte = colon ∨ byte = 0x7f then .error .invalidPath
  else if isReservedStem component then .error .invalidPath
  else .ok ()

def normalize (path : Text) (limits : Limits) : Except AssetError NormalizedPath :=
  if path = [] ∨ limits.maxPathBytes < path.length then .error .invalidPath
  else do
    -- an empty piece is skipped
    let components := (path.splitOnP fun byte => byte = slash ∨ byte = backslash).filter fun raw => raw ≠ []
    components.forM fun raw => validateComponent raw limits
    if components = [] ∨ limits.maxComponents < components.length then .error .invalidPath
    else .ok ⟨components⟩

/-! ## The host's files -/

abbrev OsName := List UInt8

abbrev OsPath := List OsName

inductive FileType
  | file
  | dir
  | symlink
  | other
  deriving DecidableEq

/-- An item of a directory. The host may fail to tell its type or to read its metadata. -/
structure DirEntry where
  name : OsName
  kind : FileType
  typed : Bool
  statted : Bool

namespace DirEntry

def fileType (entry : DirEntry) : Option FileType := if entry.typed then some entry.kind else none

def metadata (entry : DirEntry) : Option FileType := if entry.statted then some entry.kind else none

end DirEntry

/-- What the program sees of the host's files: the items of a directory in the order in which they are listed, without
those that cannot be read, and the bytes of a file. -/
structure Disk where
  readDir : OsPath → Option (List DirEntry)
  contents : OsPath → Option (List UInt8)
  distinct : ∀ path entries, readDir path = some entries → (entries.map DirEntry.name).Nodup

/-! ## The directory of an archive -/

def magic : List UInt8 := utf8Bytes "PACK"

def headerLen : Nat := 12

def nameLen : Nat := 56

def entryLen : Nat := 64

structure Entry where
  name : List UInt8
  offset : Nat
  size : Nat

namespace Entry

def trimmedName (entry : Entry) : List UInt8 := entry.name.takeWhile fun byte => byte ≠ 0

def ofRaw (raw : List UInt8) : Entry :=
  ⟨raw.take nameLen, fromLe ((raw.drop nameLen).take 4), fromLe ((raw.drop (nameLen + 4)).take 4)⟩

end Entry

def parseHeader (header : List UInt8) : Except Formats.FormatError (Nat × Nat) :=
  if header.length < headerLen then .error .truncated
  else if header.take 4 ≠ magic then .error .badSignature
  else .ok (fromLe ((header.drop 4).take 4), fromLe ((header.drop 8).take 4))

def validateEntry (totalLen : Nat) (limits : PakLimits) (entry : Entry) : Except Formats.FormatError Unit :=
  if 0 ∉ entry.name then .error .invalidText
  else if limits.maxEntryBytes < entry.size then .error .limitExceeded
  -- two sums of 32 bits do not leave 64
  else if totalLen < entry.offset + entry.size then .error .outOfBounds
  else .ok ()

def entryCount (dirSize : Nat) (limits : PakLimits) : Except Formats.FormatError Nat :=
  if dirSize % entryLen ≠ 0 then .error .sizeNotMultiple
  else if limits.maxEntries < dirSize / entryLen then .error .limitExceeded
  else .ok (dirSize / entryLen)

def fromParts (totalLen dirSize : Nat) (dirBytes : List UInt8) (limits : PakLimits) :
    Except Formats.FormatError (List Entry) := do
  let numEntries ← entryCount dirSize limits
  if dirBytes.length ≠ numEntries * entryLen then .error .truncated
  else
    let entries := (List.range numEntries).map fun i => Entry.ofRaw ((dirBytes.drop (i * entryLen)).take entryLen)
    entries.forM (validateEntry totalLen limits)
    .ok entries

def readDirectory (disk : Disk) (limits : Limits) (archive : OsPath) : Except AssetError (List Entry) :=
  match disk.contents archive with
  | none => .error .malformedArchive
  | some file =>
    match parseHeader (file.take headerLen) with
    | .error _ => .error .malformedArchive
    | .ok (dirOffset, dirSize) =>
      if min (limits.pak.maxEntries * entryLen) (2 ^ 64 - 1) < dirSize then .error .malformedArchive
      else
        let dirBytes := (file.drop dirOffset).take dirSize
        if dirBytes.length < dirSize then .error .malformedArchive
        else
          match fromParts file.length dirSize dirBytes limits.pak with
          | .error _ => .error .malformedArchive
          | .ok entries => .ok entries

/-! ## The index -/

inductive Location
  | loose (path : OsPath)
  | pak (archive : OsPath) (offset size : Nat)
  deriving DecidableEq

structure Indexed where
  display : Text
  location : Location
  deriving DecidableEq

abbrev Index := Text → Option Indexed

structure Budget where
  remainingFiles : Nat

def Budget.take (budget : Budget) : Except AssetError Budget :=
  if budget.remainingFiles = 0 then .error .limitExceeded else .ok ⟨budget.remainingFiles - 1⟩

structure Building where
  index : Index
  budget : Budget

def Building.insertNew (building : Building) (normalized : NormalizedPath) (location : Location) :
    Except AssetError Building :=
  if (building.index normalized.key).isSome then .ok building
  else do
    let budget ← building.budget.take
    .ok ⟨Function.update building.index normalized.key (some ⟨normalized.display, location⟩), budget⟩

def pakSuffix : Text := utf8Bytes ".pak"

def endsWithPak (name : Text) : Bool := pakSuffix.isSuffixOf (toAsciiLowercase name)

/-! ### Archives in order -/

def digit (byte : UInt8) : Nat := byte.toNat - 48

def numberedPakIndex (name : Text) : Option Nat := do
  let rest ← (toAsciiLowercase name).dropPrefix? (utf8Bytes "pak")
  let digits ← rest.dropSuffix? pakSuffix
  if digits = [] ∨ ¬digits.all fun byte => 48 ≤ byte ∧ byte ≤ 57 then none
  else
    let number := digits.foldl (fun number byte => number * 10 + digit byte) 0
    if number < 2 ^ 32 then some number else none

/-- The names numbered from `next` on without a gap, and the rest. Nothing is numbered below `next`. -/
def contiguousRun (next : Nat) : List (Nat × Text) → List (Nat × Text) × List (Nat × Text)
  | [] => ([], [])
  | (number, name) :: numbered =>
    if number = next then
      let run := contiguousRun (next + 1) numbered
      ((number, name) :: run.1, run.2)
    else ([], (number, name) :: numbered)

def byLower (name other : Text) : Prop := toAsciiLowercase name ≤ toAsciiLowercase other

instance : DecidableRel byLower := fun name other =>
  inferInstanceAs (Decidable (toAsciiLowercase name ≤ toAsciiLowercase other))

def numberedPaks (names : List Text) : SortedMap Nat Text :=
  names.foldl (fun numbered name => match numberedPakIndex name with
    | some number => numbered.insert number name
    | none => numbered) SortedMap.empty

def orderedPakNames (names : List Text) : List Text :=
  let rest := names.filter fun name => (numberedPakIndex name).isNone
  let run := contiguousRun 0 (numberedPaks names).pairs
  run.1.map Prod.snd ++ (rest ++ run.2.map Prod.snd).insertionSort byLower

/-! ### Building -/

def looseName (limits : Limits) (relative : OsPath) : Option NormalizedPath :=
  let relativeStr := [slash].intercalate relative
  if ¬isUtf8 relativeStr then none
  else if endsWithPak relativeStr then none
  else (normalize relativeStr limits).toOption

/-- A directory at the place `dir` below `root`, with `levels` levels that may be entered. -/
def indexLooseFiles (disk : Disk) (limits : Limits) (root : OsPath) : Nat → OsPath → Building → Except AssetError Building
  | 0, _, _ => .error .limitExceeded
  | levels + 1, dir, building =>
    match disk.readDir (root ++ dir) with
    | none => .ok building
    | some entries => entries.foldlM
        (fun building entry =>
          let path := dir ++ [entry.name]
          match entry.metadata, entry.fileType with
          | some metadata, some fileType =>
            if fileType = .symlink then .ok building
            else if metadata = .dir then indexLooseFiles disk limits root levels path building
            else if metadata ≠ .file then .ok building
            else
              match looseName limits path with
              | none => .ok building
              | some normalized => building.insertNew normalized (.loose (root ++ path))
          | _, _ => .ok building)
        building

def memberName (limits : Limits) (entry : Entry) : Option NormalizedPath :=
  if isUtf8 entry.trimmedName then (normalize entry.trimmedName limits).toOption else none

def indexPak (disk : Disk) (limits : Limits) (archive : OsPath) (building : Building) : Except AssetError Building := do
  let directory ← readDirectory disk limits archive
  directory.foldlM
    (fun building entry =>
      match memberName limits entry with
      | none => .ok building
      | some normalized => building.insertNew normalized (.pak archive entry.offset entry.size))
    building

def pakNames (entries : List DirEntry) : List Text :=
  (entries.filter fun entry => entry.fileType = some .file ∧ isUtf8 entry.name ∧ endsWithPak entry.name).map DirEntry.name

def indexSearchPath (disk : Disk) (limits : Limits) (building : Building) (modRoot : OsPath) : Except AssetError Building :=
  match disk.readDir modRoot with
  | none => .ok building
  | some topLevel => do
    let building ← indexLooseFiles disk limits modRoot (limits.maxDepth + 1) [] building
    (orderedPakNames (pakNames topLevel)).foldlM
      (fun building archiveName => indexPak disk limits (modRoot ++ [archiveName]) building) building

def modRoot (limits : Limits) (searchPath : Text) : Except AssetError OsPath :=
  match normalize searchPath limits with
  | .ok normalized => .ok normalized.components
  | .error _ => .error .invalidPath

def build (disk : Disk) (searchPaths : List Text) (limits : Limits) : Except AssetError Index := do
  let building ← searchPaths.foldlM
    (fun building searchPath => do
      let root ← modRoot limits searchPath
      indexSearchPath disk limits building root)
    ⟨fun _ => none, ⟨limits.maxIndexedFiles⟩⟩
  .ok building.index

end OpenHalfLife.Assets
