import OpenHalfLife.Lib.Bytes
import OpenHalfLife.Media.Listing

/-! # The ECMA-119 archive

A thin wrapper of a third-party reader, which decodes directory records and
reads bytes. Records are checked again, names are decoded here, and a path is
resolved name by name with a bound on every walk.
-/

namespace OpenHalfLife.Iso

set_option autoImplicit false

open Media

def blockSize : Nat := 2048

structure DirRecord where
  name : List UInt8
  size : Nat
  isSpecial : Bool
  isDirectory : Bool
  isMultiExtent : Bool
  extendedAttrRecord : UInt8
  fileUnitSize : UInt8
  interleaveGapSize : UInt8
  flags : UInt8
  volumeSequenceNumber : UInt16
  extent : UInt32
  dataLen : UInt32

structure DirectoryRef where
  extent : Nat
  size : Nat
  deriving DecidableEq

/-- The reader. What it reads of a directory is fixed by the directory's extent and size. -/
structure IsoImage where
  readEntries : DirectoryRef → Option (List DirRecord)
  asDirRef : DirRecord → Option DirectoryRef
  /-- As many bytes as are asked for, from an offset of the volume on. -/
  readBytesAt : Nat → Nat → Option (List UInt8)

structure Iso9660File where
  mount : Nat
  startLba : Nat
  size : Nat
  position : Nat
  deriving DecidableEq

def Iso9660File.seek (file : Iso9660File) (offset : Nat) : Except SanitizedError Iso9660File :=
  if file.size < offset then .error .invalidInput else .ok { file with position := offset }

structure Iso9660Archive where
  image : IsoImage
  volumeBlocks : UInt32
  usesJoliet : Bool
  limits : DirectoryLimits
  mount : Nat
  root : DirectoryRef

/-! ## Names -/

def fromUtf16 : List Nat → Option (List Char)
  | [] => some []
  | unit :: units =>
    if unit < 0xd800 ∨ 0xdfff < unit then (fromUtf16 units).map (Char.ofNat unit :: ·)
    else if unit < 0xdc00 then
      match units with
      | [] => none
      | low :: units =>
        if 0xdc00 ≤ low ∧ low ≤ 0xdfff then
          (fromUtf16 units).map (Char.ofNat (0x10000 + (unit - 0xd800) * 0x400 + (low - 0xdc00)) :: ·)
        else none
    else none

def bigEndianUnits : List UInt8 → List Nat
  | high :: low :: bytes => (high.toNat * 256 + low.toNat) :: bigEndianUnits bytes
  | _ => []

def rsplitOnce (separator : UInt8) : Text → Option (Text × Text)
  | [] => none
  | byte :: text =>
    match rsplitOnce separator text with
    | some (front, back) => some (byte :: front, back)
    | none => if byte = separator then some ([], text) else none

def semicolon : UInt8 := 0x3b

def isAsciiDigit (byte : UInt8) : Bool := 0x30 ≤ byte ∧ byte ≤ 0x39

def toAsciiLowercase (text : Text) : Text :=
  text.map fun byte => if 0x41 ≤ byte ∧ byte ≤ 0x5a then byte + 0x20 else byte

def stripVersion (decoded : Text) : Text :=
  match rsplitOnce semicolon decoded with
  | some (base, version) => if version ≠ [] ∧ version.all isAsciiDigit then base else decoded
  | none => decoded

namespace Iso9660Archive

variable (archive : Iso9660Archive)

def decodeText (record : DirRecord) : Except SanitizedError Text :=
  if archive.usesJoliet then
    if record.name.length % 2 ≠ 0 then .error .invalidInput
    else
      match fromUtf16 (bigEndianUnits record.name) with
      | none => .error .invalidInput
      | some chars => .ok (chars.flatMap String.utf8EncodeChar)
  else if (decodeUtf8 record.name).isNone then .error .invalidInput
  else .ok record.name

def decodeName (record : DirRecord) : Except SanitizedError Text := do
  let decoded ← archive.decodeText record
  let stripped := stripVersion (decoded.filter fun byte => byte ≠ 0)
  if archive.limits.maxEntryNameBytes < stripped.length ∨ ¬isSinglePathComponent stripped then .error .invalidInput
  else .ok stripped

def namesMatch (decoded wanted : Text) : Bool :=
  if archive.usesJoliet then decoded = wanted else toAsciiLowercase decoded = toAsciiLowercase wanted

/-! ## Directories -/

def checkDirectoryRef (directory : DirectoryRef) : Except SanitizedError Unit :=
  if directory.size = 0 ∨ directory.size % blockSize ≠ 0 then .error .invalidInput
  else if archive.limits.maxDirectoryExtentBytes < directory.size then .error .invalidInput
  -- a sum that leaves 64 bits leaves the volume as well
  else if archive.volumeBlocks.toNat < directory.extent + directory.size / blockSize then .error .invalidInput
  else .ok ()

def checkRecord (record : DirRecord) : Except SanitizedError Unit :=
  if record.extendedAttrRecord ≠ 0 ∨ record.fileUnitSize ≠ 0 ∨ record.interleaveGapSize ≠ 0 ∨
      record.flags &&& 0x80 ≠ 0 ∨ record.isMultiExtent then .error .invalidInput
  else if record.volumeSequenceNumber ≠ 1 then .error .invalidInput
  else if record.name.length = 0 ∨ archive.limits.maxEntryNameBytes < record.name.length ∨
      record.size < 33 + record.name.length then .error .invalidInput
  else if record.isDirectory ∧ (record.dataLen = 0 ∨ record.dataLen.toNat % blockSize ≠ 0) then .error .invalidInput
  else if archive.volumeBlocks.toNat ≤ record.extent.toNat ∨
      archive.volumeBlocks.toNat < record.extent.toNat + (record.dataLen.toNat + (blockSize - 1)) / blockSize then
    .error .invalidInput
  else .ok ()

def takeRecords : List DirRecord → List DirRecord → Except SanitizedError (List DirRecord)
  | [], records => .ok records
  | record :: rest, records =>
    if record.isSpecial then takeRecords rest records
    else do
      archive.checkRecord record
      if archive.limits.maxTotalEntries ≤ records.length then .error .invalidInput
      else takeRecords rest (records ++ [record])

def readEntries (directory : DirectoryRef) : Except SanitizedError (List DirRecord) := do
  archive.checkDirectoryRef directory
  match archive.image.readEntries directory with
  | none => .error .invalidInput
  | some raw => archive.takeRecords raw []

def findRecord (wanted : Text) : List DirRecord → Except SanitizedError (Option DirRecord)
  | [] => .ok none
  | record :: rest => do
    let name ← archive.decodeName record
    if archive.namesMatch name wanted then .ok (some record) else findRecord wanted rest

def resolveFrom : List Text → DirectoryRef → List Nat → Nat → Except SanitizedError DirectoryRef
  | [], current, _, _ => .ok current
  | component :: rest, current, visited, depth =>
    if archive.limits.maxPathComponents < depth + 1 then .error .invalidInput
    else do
      let records ← archive.readEntries current
      match ← archive.findRecord component records with
      | none => .error .notFound
      | some record =>
        if ¬record.isDirectory then .error .notFound
        else
          match archive.image.asDirRef record with
          | none => .error .invalidInput
          | some next =>
            if visited.contains next.extent then .error .invalidInput
            else if archive.limits.maxDirectoriesVisited ≤ visited.length then .error .invalidInput
            else resolveFrom rest next (visited ++ [next.extent]) (depth + 1)

def resolveDirectory (normalized : Text) : Except SanitizedError DirectoryRef :=
  archive.resolveFrom (components normalized) archive.root [archive.root.extent] 0

/-! ## Files -/

def fileOf (record : DirRecord) : Iso9660File := ⟨archive.mount, record.extent.toNat, record.dataLen.toNat, 0⟩

def openRecord : Option DirRecord → Except SanitizedError Iso9660File
  | none => .error .notFound
  | some record => if record.isDirectory then .error .invalidInput else .ok (archive.fileOf record)

def resolveFile (normalized : Text) : Except SanitizedError Iso9660File :=
  match rsplitOnce slash normalized with
  | none => .error .invalidInput
  | some (parent, name) =>
    if name = [] then .error .invalidInput
    else do
      let directory ← archive.resolveDirectory (if parent = [] then [slash] else parent)
      let records ← archive.readEntries directory
      let found ← archive.findRecord name records
      archive.openRecord found

def openFile (path : Text) : Except SanitizedError Iso9660File :=
  match normalizePath path with
  | none => .error .invalidInput
  | some normalized => archive.resolveFile normalized

def openFileAt (directory entryName : Text) : Except SanitizedError Iso9660File :=
  if ¬isSinglePathComponent entryName then .error .invalidInput
  else
    match normalizePath directory with
    | none => .error .invalidInput
    | some normalized =>
      archive.resolveFile (if normalized = [slash] then slash :: entryName else normalized ++ slash :: entryName)

/-! ## Listings -/

def entryOf (record : DirRecord) (name : Text) : DirectoryEntry :=
  ⟨name, if record.isDirectory then .directory else .file, if record.isDirectory then 0 else record.dataLen.toNat⟩

def fillPage (alreadyReturned : Nat) : List DirRecord → List DirectoryEntry → Nat →
    Except SanitizedError (List DirectoryEntry)
  | [], page, _ => .ok page
  | record :: rest, page, nameBytes => do
    let name ← archive.decodeName record
    if archive.limits.maxPageEntries ≤ page.length then .ok page
    else
      let nextBytes := nameBytes + name.length
      if 2 ^ 64 ≤ nextBytes then .error .arithmeticOverflow
      else if archive.limits.maxPageNameBytes < nextBytes then
        if page.isEmpty then .error .invalidInput else .ok page
      else if archive.limits.maxTotalEntries ≤ alreadyReturned + page.length then .error .invalidInput
      else fillPage alreadyReturned rest (page ++ [entryOf record name]) nextBytes

def pageFrom (directory : DirectoryRef) (startIndex alreadyReturned pagesEmitted : Nat) :
    Except SanitizedError DirectoryPage :=
  if archive.limits.maxPageCount ≤ pagesEmitted then .error .invalidInput
  else do
    let records ← archive.readEntries directory
    let page ← archive.fillPage alreadyReturned (records.drop startIndex) [] 0
    let index := startIndex + page.length
    .ok ⟨page, if index < records.length then
      some ⟨archive.mount, directory.extent, directory.size, index, alreadyReturned + page.length, pagesEmitted + 1⟩
      else none⟩

def directoryAt (path : Text) : Except SanitizedError DirectoryRef :=
  match normalizePath path with
  | none => .error .invalidInput
  | some normalized => archive.resolveDirectory normalized

def listPage (path : Text) : Except SanitizedError DirectoryPage := do
  let directory ← archive.directoryAt path
  archive.pageFrom directory 0 0 0

def continueList (cursor : DirectoryCursor) : Except SanitizedError DirectoryPage :=
  if cursor.mount ≠ archive.mount then .error .invalidInput
  else archive.pageFrom ⟨cursor.directoryExtent, cursor.directoryLength⟩ cursor.nextIndex cursor.returnedEntries
    cursor.pagesEmitted

/-- The loop of a whole listing, for at most `turns` further pages. -/
def continueAll : Nat → DirectoryPage → Except SanitizedError (List DirectoryEntry)
  | 0, page =>
    match page.cursor with
    | none => .ok page.entries
    -- the page count of the cursor is spent, and the next page fails on it
    | some _ => .error .invalidInput
  | turns + 1, page =>
    match page.cursor with
    | none => .ok page.entries
    | some cursor => do
      let next ← archive.continueList cursor
      let rest ← continueAll turns next
      .ok (page.entries ++ rest)

def list (path : Text) : Except SanitizedError (List DirectoryEntry) := do
  let page ← archive.listPage path
  archive.continueAll archive.limits.maxPageCount page

/-! ## Reading -/

def readFile (file : Iso9660File) (room : Nat) : Except SanitizedError (List UInt8 × Iso9660File) :=
  if file.mount ≠ archive.mount then .error .invalidInput
  else if file.size ≤ file.position ∨ room = 0 then .ok ([], file)
  else
    let count := min (file.size - file.position) room
    let offset := file.startLba * blockSize + file.position
    if 2 ^ 64 ≤ offset then .error .arithmeticOverflow
    else
      match archive.image.readBytesAt offset count with
      | none => .error .invalidInput
      | some bytes => .ok (bytes, { file with position := file.position + count })

end Iso9660Archive

end OpenHalfLife.Iso
