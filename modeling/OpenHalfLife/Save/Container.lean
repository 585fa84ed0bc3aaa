import OpenHalfLife.Lib.Bytes
import OpenHalfLife.Lib.Machine

/-! # The save container

Magic, version, a bounded header, a table of tagged sections, their bytes, and
a digest of everything before it. The digest function is a parameter.
-/

namespace OpenHalfLife.Save

open Machine

set_option autoImplicit false

inductive SaveError
  | badMagic
  | unsupportedMajorVersion
  | truncated
  | limitExceeded
  | headerInvalid
  | tableInvalid
  | sectionDigestMismatch
  | trailerMismatch
  | duplicateTag
  | reservedTag
  | sectionNotFound
  deriving DecidableEq, Repr

/-- `MAGIC`, the bytes of `OHLSAVE` and a zero. -/
def magic : List UInt8 := [0x4f, 0x48, 0x4c, 0x53, 0x41, 0x56, 0x45, 0]

def formatMajor : UInt16 := 1

def formatMinor : UInt16 := 0

def minApplicationTag : UInt32 := 16

def trailerLen : Nat := 32

def entryLen : Nat := 4 + 8 + 8 + 32

def maxGameVersionLen : Nat := 64

def maxMapIdentityLen : Nat := 128

def maxTitleLen : Nat := 128

def maxThumbnailLen : Nat := 65536

structure Limits where
  maxSections : UInt32
  maxSectionBytes : UInt64
  maxFileBytes : UInt64

structure Digest where
  bytes : List UInt8
  length_eq : bytes.length = 32
  deriving DecidableEq

def utf8 (text : String) : List UInt8 := text.toByteArray.data.toList

def fromUtf8 (bytes : List UInt8) : Option String := String.fromUTF8? ⟨bytes.toArray⟩

structure Header where
  gameVersion : String
  createdAtUnixSecs : UInt64
  mapIdentity : String
  title : String
  thumbnail : List UInt8
  deriving DecidableEq

structure SectionEntry where
  tag : UInt32
  offset : UInt64
  length : UInt64
  sha256 : Digest
  deriving DecidableEq

def checkedAdd (a b : Nat) : Except SaveError Nat :=
  if a + b ≥ 2 ^ 64 then .error .limitExceeded else .ok (a + b)

def checkedMul (a b : Nat) : Except SaveError Nat :=
  if a * b ≥ 2 ^ 64 then .error .limitExceeded else .ok (a * b)

/-! ## Reading -/

structure Reader where
  bytes : List UInt8
  position : Nat

abbrev Reading := Machine SaveError Reader

namespace Reader

def take (count : Nat) : Reading (List UInt8) := .ofFun fun reader =>
  let stop := reader.position + count
  if stop ≥ 2 ^ 64 ∨ stop > reader.bytes.length then (.error .truncated, reader)
  else (.ok ((reader.bytes.drop reader.position).take count), { reader with position := stop })

def u16 : Reading UInt16 := do
  let bytes ← take 2
  return UInt16.ofNat (fromLe bytes)

def u32 : Reading UInt32 := do
  let bytes ← take 4
  return UInt32.ofNat (fromLe bytes)

def u64 : Reading UInt64 := do
  let bytes ← take 8
  return UInt64.ofNat (fromLe bytes)

def array32 : Reading Digest := do
  let bytes ← take 32
  if h : bytes.length = 32 then return ⟨bytes, h⟩ else throw .truncated

def boundedString (maxLen : Nat) : Reading String := do
  let size ← u16
  if size.toNat > maxLen then throw .headerInvalid
  else
    let bytes ← take size.toNat
    match fromUtf8 bytes with
    | some text => return text
    | none => throw .headerInvalid

def boundedBytes (maxLen : Nat) : Reading (List UInt8) := do
  let size ← u32
  if size.toNat > maxLen then throw .headerInvalid else take size.toNat

end Reader

def Header.decode : Reading Header := do
  let gameVersion ← Reader.boundedString maxGameVersionLen
  let createdAtUnixSecs ← Reader.u64
  let mapIdentity ← Reader.boundedString maxMapIdentityLen
  let title ← Reader.boundedString maxTitleLen
  let thumbnail ← Reader.boundedBytes maxThumbnailLen
  return { gameVersion, createdAtUnixSecs, mapIdentity, title, thumbnail }

def SectionEntry.decode : Reading SectionEntry := do
  let tag ← Reader.u32
  let offset ← Reader.u64
  let length ← Reader.u64
  let sha256 ← Reader.array32
  return { tag, offset, length, sha256 }

/-! ## Writing -/

abbrev Writing := Machine SaveError (List UInt8)

namespace Writer

def raw (bytes : List UInt8) : Writing Unit := modify (· ++ bytes)

def u16 (value : UInt16) : Writing Unit := raw (toLe 2 value.toNat)

def u32 (value : UInt32) : Writing Unit := raw (toLe 4 value.toNat)

def u64 (value : UInt64) : Writing Unit := raw (toLe 8 value.toNat)

def array32 (value : Digest) : Writing Unit := raw value.bytes

def boundedString (value : String) : Writing Unit := do
  if (utf8 value).length ≥ 2 ^ 16 then throw .headerInvalid
  else
    u16 (UInt16.ofNat (utf8 value).length)
    raw (utf8 value)

def boundedBytes (value : List UInt8) : Writing Unit := do
  if value.length ≥ 2 ^ 32 then throw .headerInvalid
  else
    u32 (UInt32.ofNat value.length)
    raw value

end Writer

namespace Header

def validate (header : Header) : Except SaveError Unit :=
  if (utf8 header.gameVersion).length > maxGameVersionLen ∨
      (utf8 header.mapIdentity).length > maxMapIdentityLen ∨
      (utf8 header.title).length > maxTitleLen ∨ header.thumbnail.length > maxThumbnailLen then
    .error .headerInvalid
  else .ok ()

def encode (header : Header) : Writing Unit := do
  ofExcept id header.validate
  Writer.boundedString header.gameVersion
  Writer.u64 header.createdAtUnixSecs
  Writer.boundedString header.mapIdentity
  Writer.boundedString header.title
  Writer.boundedBytes header.thumbnail

end Header

def SectionEntry.encode (entry : SectionEntry) : Writing Unit := do
  Writer.u32 entry.tag
  Writer.u64 entry.offset
  Writer.u64 entry.length
  Writer.array32 entry.sha256

/-! ## The writer -/

structure SaveWriter where
  header : Header
  sections : List (UInt32 × List UInt8)

section Digested

variable (digest : List UInt8 → Digest)

namespace SaveWriter

def start (header : Header) : SaveWriter := ⟨header, []⟩

def addSection (tag : UInt32) (bytes : List UInt8) : Machine SaveError SaveWriter Unit := do
  let writer ← get
  if tag < minApplicationTag then throw .reservedTag
  else if writer.sections.any (·.1 = tag) then throw .duplicateTag
  else modify fun writer => { writer with sections := writer.sections ++ [(tag, bytes)] }

def layOut : List (UInt32 × List UInt8) → Nat → Except SaveError (List SectionEntry)
  | [], _ => .ok []
  | (tag, bytes) :: sections, offset => do
    let entry : SectionEntry := ⟨tag, UInt64.ofNat offset, UInt64.ofNat bytes.length, digest bytes⟩
    let next ← checkedAdd offset bytes.length
    let entries ← layOut sections next
    return entry :: entries

def checkSizes (writer : SaveWriter) (limits : Limits) : Except SaveError Unit :=
  if writer.sections.length ≥ 2 ^ 32 ∨ writer.sections.length > limits.maxSections.toNat then
    .error .limitExceeded
  else if writer.sections.any fun s => s.2.length ≥ 2 ^ 64 ∨ s.2.length > limits.maxSectionBytes.toNat then
    .error .limitExceeded
  else .ok ()

def writePrologue (writer : SaveWriter) : Writing Unit := do
  Writer.raw magic
  Writer.u16 formatMajor
  Writer.u16 formatMinor
  writer.header.encode
  Writer.u32 (UInt32.ofNat writer.sections.length)

def write (writer : SaveWriter) (limits : Limits) : Writing Unit := do
  ofExcept id (writer.checkSizes limits)
  writer.writePrologue
  let headerEnd := (← get).length
  let tableLen ← ofExcept id (checkedMul writer.sections.length entryLen)
  let dataStart ← ofExcept id (checkedAdd headerEnd tableLen)
  let entries ← ofExcept id (layOut digest writer.sections dataStart)
  entries.forM SectionEntry.encode
  writer.sections.forM fun s => Writer.raw s.2
  let totalLen ← ofExcept id (checkedAdd (← get).length trailerLen)
  if totalLen > limits.maxFileBytes.toNat then throw .limitExceeded
  else
    let trailer := digest (← get)
    Writer.array32 trailer

def finish (writer : SaveWriter) (limits : Limits) : Except SaveError (List UInt8) :=
  match (writer.write digest limits).exec [] with
  | (.ok (), bytes) => .ok bytes
  | (.error error, _) => .error error

end SaveWriter

/-! ## The reader -/

structure SaveReader where
  header : Header
  entries : List SectionEntry
  bytes : List UInt8
  unknownSectionCount : Nat
  formatMinor : UInt16

namespace SaveReader

structure Prologue where
  header : Header
  entries : List SectionEntry
  formatMinor : UInt16

def readEntries : Nat → Reading (List SectionEntry)
  | 0 => return []
  | count + 1 => do
    let entry ← SectionEntry.decode
    let entries ← readEntries count
    return entry :: entries

def readPrologue (limits : Limits) : Reading Prologue := do
  let found ← Reader.take magic.length
  if found ≠ magic then throw .badMagic
  else
    let major ← Reader.u16
    let minor ← Reader.u16
    if major ≠ Save.formatMajor then throw .unsupportedMajorVersion
    else
      let header ← Header.decode
      let sectionCount ← Reader.u32
      if sectionCount > limits.maxSections then throw .limitExceeded
      else
        let entries ← readEntries sectionCount.toNat
        return { header, entries, formatMinor := minor }

structure Seen where
  tags : List UInt32
  unknown : Nat

def checkEntry (limits : Limits) (bytes : List UInt8) (dataStart contentLen : Nat) (seen : Seen)
    (entry : SectionEntry) : Except SaveError Seen := do
  if entry.tag ∈ seen.tags then .error .tableInvalid
  else if entry.length > limits.maxSectionBytes then .error .limitExceeded
  else if entry.offset.toNat < dataStart then .error .tableInvalid
  else
    let stop ← checkedAdd entry.offset.toNat entry.length.toNat
    if stop > contentLen then .error .tableInvalid
    else if stop > bytes.length then .error .tableInvalid
    else if digest ((bytes.drop entry.offset.toNat).take entry.length.toNat) ≠ entry.sha256 then
      .error .sectionDigestMismatch
    else
      .ok ⟨seen.tags ++ [entry.tag],
        if entry.tag < minApplicationTag then min (seen.unknown + 1) (2 ^ 32 - 1) else seen.unknown⟩

/-- Named for the `open` of the source. The section data may start where the
prologue's reader stopped. -/
def openFile (bytes : List UInt8) (limits : Limits) : Except SaveError SaveReader := do
  if bytes.length > limits.maxFileBytes.toNat then .error .limitExceeded
  else if bytes.length < trailerLen then .error .truncated
  else
    let contentLen := bytes.length - trailerLen
    match (readPrologue limits).exec ⟨bytes, 0⟩ with
    | (.error error, _) => .error error
    | (.ok prologue, reader) => do
      let seen ← prologue.entries.foldlM (checkEntry digest limits bytes reader.position contentLen) ⟨[], 0⟩
      if bytes.drop contentLen ≠ (digest (bytes.take contentLen)).bytes then .error .trailerMismatch
      else .ok ⟨prologue.header, prologue.entries, bytes, seen.unknown, prologue.formatMinor⟩

def readSection (reader : SaveReader) (tag : UInt32) : Except SaveError (List UInt8) := do
  match reader.entries.find? (·.tag = tag) with
  | none => .error .sectionNotFound
  | some entry =>
    let stop ← checkedAdd entry.offset.toNat entry.length.toNat
    if stop > reader.bytes.length then .error .tableInvalid
    else .ok ((reader.bytes.drop entry.offset.toNat).take entry.length.toNat)

end SaveReader

end Digested

end OpenHalfLife.Save
